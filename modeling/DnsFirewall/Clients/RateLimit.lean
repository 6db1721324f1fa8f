import DnsFirewall.Foundations.ChainedTable
import Mathlib.Data.UInt

/-!
# The rate limiter

The token buckets of `rate_limit.c`, one for each client address, in chains
that start at the address modulo the table size.  Token arithmetic is unsigned
with 32 bits.  Allocation is taken to succeed.
-/

namespace DnsFirewall

/-- `bucket_t` without its chain pointer. -/
structure Bucket where
  ip : UInt32
  lastRefill : Int
  tokens : UInt32
deriving DecidableEq, Repr

/-- `rl_ctx_t`. -/
structure RateLimiter (tableSize : Nat) where
  maxTokens : UInt32
  buckets : Fin tableSize → List Bucket

def rlCreate (tableSize : Nat) (maxQueriesPerSec : UInt32) :
    RateLimiter tableSize :=
  ⟨maxQueriesPerSec, fun _ => []⟩

def Bucket.refill (b : Bucket) (maxTokens : UInt32) (now : Int) : Bucket :=
  let elapsed := UInt32.ofInt (now - b.lastRefill)
  if 0 < elapsed then
    let tokens := b.tokens + elapsed
    { b with
      tokens := if maxTokens < tokens then maxTokens else tokens
      lastRefill := now }
  else
    b

/-- What `rl_check` does with the bucket it finds for the client, or with the
one it allocates. -/
def serve (maxTokens : UInt32) (ip : UInt32) (now : Int)
    (found : Option Bucket) : Bool × Bucket :=
  match found with
  | none => (true, ⟨ip, now, maxTokens - 1⟩)
  | some b =>
      let b := b.refill maxTokens now
      if 0 < b.tokens then
        (true, { b with tokens := b.tokens - 1 })
      else
        (false, b)

section Table

variable {tableSize : Nat} [NeZero tableSize]

/-- `ip % ctx->table_size`. -/
def bucketSlot (tableSize : Nat) [NeZero tableSize] (ip : UInt32) :
    Fin tableSize :=
  Fin.ofNat tableSize ip.toNat

def RateLimiter.bucketOf (ctx : RateLimiter tableSize) (ip : UInt32) :
    Option Bucket :=
  ChainedTable.find Bucket.ip (bucketSlot tableSize) ctx.buckets ip

/-- `rl_check`: whether it returns one, and the limiter it leaves. -/
def rlCheck (ctx : RateLimiter tableSize) (ip : UInt32) (now : Int) :
    Bool × RateLimiter tableSize :=
  let (admitted, bucket) := serve ctx.maxTokens ip now (ctx.bucketOf ip)
  (admitted,
    { ctx with
      buckets :=
        ChainedTable.put Bucket.ip (bucketSlot tableSize) ctx.buckets
          bucket })

theorem RateLimiter.bucketOf_ip
    {ctx : RateLimiter tableSize} {ip : UInt32} {bucket : Bucket}
    (found : ctx.bucketOf ip = some bucket) :
    bucket.ip = ip :=
  ChainedTable.keyOf_of_findChain found

theorem refill_ip (b : Bucket) (maxTokens : UInt32) (now : Int) :
    (b.refill maxTokens now).ip = b.ip := by
  rw [Bucket.refill]
  simp only
  split <;> rfl

theorem serve_ip (ctx : RateLimiter tableSize) (ip : UInt32) (now : Int) :
    (serve ctx.maxTokens ip now (ctx.bucketOf ip)).2.ip = ip := by
  cases found : ctx.bucketOf ip with
  | none => rfl
  | some bucket =>
      have served :
          (serve ctx.maxTokens ip now (some bucket)).2.ip =
            (bucket.refill ctx.maxTokens now).ip := by
        unfold serve
        simp only
        split <;> rfl
      rw [served, refill_ip]
      exact RateLimiter.bucketOf_ip found

theorem bucketOf_rlCheck_self
    (ctx : RateLimiter tableSize) (ip : UInt32) (now : Int) :
    (rlCheck ctx ip now).2.bucketOf ip =
      some (serve ctx.maxTokens ip now (ctx.bucketOf ip)).2 := by
  have found :=
    ChainedTable.find_put_self Bucket.ip (bucketSlot tableSize)
      ctx.buckets (serve ctx.maxTokens ip now (ctx.bucketOf ip)).2
  rw [serve_ip] at found
  exact found

/-- A check leaves the buckets of other clients alone, also those in the same
chain. -/
theorem bucketOf_rlCheck_other
    (ctx : RateLimiter tableSize) {ip other : UInt32} (now : Int)
    (different : ip ≠ other) :
    (rlCheck ctx ip now).2.bucketOf other = ctx.bucketOf other := by
  have elsewhere :
      (serve ctx.maxTokens ip now (ctx.bucketOf ip)).2.ip ≠ other := by
    rw [serve_ip]
    exact different
  exact
    ChainedTable.find_put_other Bucket.ip (bucketSlot tableSize)
      ctx.buckets elsewhere

end Table

end DnsFirewall
