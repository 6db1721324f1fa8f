import DnsFirewall.Clients.RateBounds
import DnsFirewall.Foundations.Unwinding

/-!
# Clients do not share tokens

Addresses with the same remainder share a chain, but not a bucket: what a
client is answered is a matter of its own calls.
-/

namespace DnsFirewall

open Unwinding

variable {tableSize : Nat} [NeZero tableSize]

/-- What a call of `rl_check` returns. -/
def limiterAnswer (ctx : RateLimiter tableSize) (call : LimiterCall) :
    Bool :=
  (rlCheck ctx call.ip call.time).1

/-- What the calls of a client return along a run, in their order. -/
def resultsOf (ctx : RateLimiter tableSize) (client : UInt32)
    (calls : List LimiterCall) : List Bool :=
  answersOf limiterCall limiterAnswer (fun call => call.ip = client)
    ctx calls

/-- What a client sees of the limiter. -/
def RateLimiter.viewOf (client : UInt32) (ctx : RateLimiter tableSize) :
    UInt32 × Option Bucket :=
  (ctx.maxTokens, ctx.bucketOf client)

theorem viewOf_eq_iff
    {client : UInt32} {first second : RateLimiter tableSize} :
    first.viewOf client = second.viewOf client ↔
      first.maxTokens = second.maxTokens ∧
        first.bucketOf client = second.bucketOf client := by
  rw [RateLimiter.viewOf, RateLimiter.viewOf, Prod.mk.injEq]

theorem viewOf_limiterCall_self
    (ctx : RateLimiter tableSize) (call : LimiterCall) :
    (limiterCall ctx call).viewOf call.ip =
      (ctx.maxTokens,
        some (serve ctx.maxTokens call.ip call.time
          (ctx.bucketOf call.ip)).2) := by
  rw [RateLimiter.viewOf, bucketOf_limiterCall_self rfl call]
  rfl

/-- A client sees nothing of the calls of others, and by its own calls no more
than its bucket. -/
theorem unwinds_limiterCall (client : UInt32) :
    Unwinds (@limiterCall tableSize _) limiterAnswer
      (fun call => call.ip = client) (RateLimiter.viewOf client) where
  others := by
    intro ctx call isOther
    have different : call.ip ≠ client := of_decide_eq_false isOther
    rw [RateLimiter.viewOf, bucketOf_limiterCall_other ctx different]
    rfl
  answers := by
    intro first second call isClient alike
    have isClient : call.ip = client := of_decide_eq_true isClient
    subst isClient
    obtain ⟨limits, buckets⟩ := viewOf_eq_iff.mp alike
    have served : (serve first.maxTokens call.ip call.time
        (first.bucketOf call.ip)).1 =
          (serve second.maxTokens call.ip call.time
            (second.bucketOf call.ip)).1 := by
      rw [limits, buckets]
    exact served
  steps := by
    intro first second call isClient alike
    have isClient : call.ip = client := of_decide_eq_true isClient
    subst isClient
    obtain ⟨limits, buckets⟩ := viewOf_eq_iff.mp alike
    rw [viewOf_limiterCall_self, viewOf_limiterCall_self, limits, buckets]

/-- The calls of a client are its times. -/
theorem filter_eq_map_timesOf (client : UInt32)
    (calls : List LimiterCall) :
    calls.filter (fun call => call.ip = client) =
      (timesOf client calls).map fun time => ⟨client, time⟩ := by
  induction calls with
  | nil => rfl
  | cons call later inductionHypothesis =>
      by_cases isClient : call.ip = client
      · subst isClient
        rw [timesOf_cons_self, List.map_cons, ← inductionHypothesis]
        exact List.filter_cons_of_pos (by simp)
      · rw [timesOf_cons_other isClient, ← inductionHypothesis]
        exact List.filter_cons_of_neg (by simpa using isClient)

theorem resultsOf_congr
    (client : UInt32) {first second : RateLimiter tableSize}
    (alike : first.viewOf client = second.viewOf client)
    {calls others : List LimiterCall}
    (same : timesOf client calls = timesOf client others) :
    resultsOf first client calls = resultsOf second client others := by
  apply answersOf_eq (unwinds_limiterCall client) alike
  rw [filter_eq_map_timesOf, filter_eq_map_timesOf, same]

/-- Two runs in which a client calls at the same times give it the same
results, whatever calls of other clients lie between. -/
theorem rlCheck_isolates_clients
    (maxTokens client : UInt32) (calls others : List LimiterCall)
    (same : timesOf client calls = timesOf client others) :
    resultsOf (rlCreate tableSize maxTokens) client calls =
      resultsOf (rlCreate tableSize maxTokens) client others :=
  resultsOf_congr client rfl same

/-- In a table of one chain, another client uses up its tokens between two
calls of the first. -/
theorem rlCheck_isolates_clients_oneChain :
    resultsOf (rlCreate 1 2) 7 [⟨7, 0⟩, ⟨9, 0⟩, ⟨9, 0⟩, ⟨9, 0⟩, ⟨7, 0⟩] =
      resultsOf (rlCreate 1 2) 7 [⟨7, 0⟩, ⟨7, 0⟩] :=
  rlCheck_isolates_clients 2 7 [⟨7, 0⟩, ⟨9, 0⟩, ⟨9, 0⟩, ⟨9, 0⟩, ⟨7, 0⟩]
    [⟨7, 0⟩, ⟨7, 0⟩] rfl

/-! ## A clock that steps back -/

/-- A refill grants no more tokens than seconds have passed, and does not
overfill the bucket. -/
def GrantsElapsed (maxTokens : UInt32) (b : Bucket) (now : Int) : Prop :=
  ((b.refill maxTokens now).tokens.toNat : Int) ≤
      b.tokens.toNat + max 0 (now - b.lastRefill) ∧
    (b.refill maxTokens now).tokens ≤ maxTokens

/-- The tokens after a refill, with the seconds taken modulo 2^32. -/
theorem refill_tokens (maxTokens : UInt32) (b : Bucket) (now : Int) :
    ((b.refill maxTokens now).tokens.toNat : Int) =
      if (now - b.lastRefill) % 4294967296 = 0 then
        (b.tokens.toNat : Int)
      else
        min (maxTokens.toNat : Int)
          ((b.tokens.toNat + (now - b.lastRefill) % 4294967296) %
            4294967296) := by
  have elapsed := toNat_ofInt (now - b.lastRefill)
  have noTime : (0 : UInt32).toNat = 0 := rfl
  rw [Bucket.refill]
  by_cases moved : 0 < UInt32.ofInt (now - b.lastRefill)
  · have added :=
      UInt32.toNat_add b.tokens (UInt32.ofInt (now - b.lastRefill))
    rw [if_pos moved]
    rw [UInt32.lt_iff_toNat_lt] at moved
    rw [if_neg (by omega)]
    simp only
    by_cases full :
        maxTokens < b.tokens + UInt32.ofInt (now - b.lastRefill)
    · rw [if_pos full]
      rw [UInt32.lt_iff_toNat_lt] at full
      omega
    · rw [if_neg full]
      rw [UInt32.lt_iff_toNat_lt] at full
      omega
  · rw [if_neg moved]
    rw [UInt32.lt_iff_toNat_lt] at moved
    rw [if_pos (by omega)]

/-- A refill grants no more than the time that passed exactly when the clock
did not step back, or the bucket is full, or it stepped back, up to multiples
of 2^32, by no more seconds than the bucket has tokens. -/
theorem refill_grantsElapsed_iff
    (maxTokens : UInt32) (b : Bucket) (now : Int)
    (capped : b.tokens ≤ maxTokens) :
    GrantsElapsed maxTokens b now ↔
      b.lastRefill ≤ now ∨ b.tokens = maxTokens ∨
        (b.lastRefill - now) % 4294967296 ≤ b.tokens.toNat := by
  have tokens := refill_tokens maxTokens b now
  have room : b.tokens.toNat < 4294967296 := b.tokens.toNat_lt
  have limit : maxTokens.toNat < 4294967296 := maxTokens.toNat_lt
  have cap : b.tokens.toNat ≤ maxTokens.toNat :=
    UInt32.le_iff_toNat_le.mp capped
  have full : b.tokens = maxTokens ↔ b.tokens.toNat = maxTokens.toNat :=
    UInt32.toNat_inj.symm
  rw [GrantsElapsed, UInt32.le_iff_toNat_le, full]
  by_cases still : (now - b.lastRefill) % 4294967296 = 0
  · rw [if_pos still] at tokens
    omega
  · rw [if_neg still] at tokens
    omega

/-- Three tokens, and a clock two seconds back. -/
theorem refill_grantsElapsed_iff_stepBack :
    GrantsElapsed 20 ⟨7, 100, 3⟩ 98 :=
  (refill_grantsElapsed_iff 20 ⟨7, 100, 3⟩ 98 (by decide)).mpr
    (Or.inr (Or.inr (by decide)))

/-- A clock that steps back by one second fills an empty bucket. -/
theorem not_grantsElapsed_stepBack :
    ¬ ∀ (maxTokens : UInt32) (b : Bucket) (now : Int),
      b.tokens ≤ maxTokens → GrantsElapsed maxTokens b now := by
  intro always
  have granted := (always 20 ⟨7, 100, 0⟩ 99 (by decide)).1
  exact absurd granted (by decide)

end DnsFirewall
