import DnsFirewall.Clients.RateLimit
import DnsFirewall.Foundations.Runs
import DnsFirewall.Foundations.TokenBucket

/-!
# What the rate limiter grants

The bucket of a client is a token bucket with one token a second, in 32-bit
arithmetic.  Where the arithmetic wraps it only loses tokens, so the bound on a
window holds for every run; a client that never pauses for about 2^32 seconds
gets what the token bucket gives.
-/

namespace DnsFirewall

open Runs TokenBucket

variable {tableSize : Nat} [NeZero tableSize]

/-- A call of `rl_check` with its reading of the clock. -/
structure LimiterCall where
  ip : UInt32
  time : Int
deriving DecidableEq, Repr

/-- The limiter after a call. -/
def limiterCall (ctx : RateLimiter tableSize) (call : LimiterCall) :
    RateLimiter tableSize :=
  (rlCheck ctx call.ip call.time).2

/-- The times of the calls of a client. -/
def timesOf (ip : UInt32) (calls : List LimiterCall) : List Int :=
  (calls.filter fun call => call.ip = ip).map LimiterCall.time

/-- The times of the calls of a client that return one. -/
def admittedTimes (ctx : RateLimiter tableSize) (ip : UInt32) :
    List LimiterCall → List Int
  | [] => []
  | call :: later =>
      if call.ip = ip ∧ (rlCheck ctx call.ip call.time).1 = true then
        call.time :: admittedTimes (limiterCall ctx call) ip later
      else
        admittedTimes (limiterCall ctx call) ip later

/-- The bucket of a client holds no more than the level, was refilled last a
multiple of 2^32 seconds before the level, and is not overfull. -/
def Below (maxTokens : UInt32) (found : Option Bucket)
    (level : Option Level) : Prop :=
  match found, level with
  | none, none => True
  | some b, some level =>
      b.tokens.toNat ≤ level.tokens ∧
        b.tokens.toNat ≤ maxTokens.toNat ∧
          (level.last - b.lastRefill) % 4294967296 = 0
  | _, _ => False

/-- The bucket of a client is the level. -/
def Exactly (maxTokens : UInt32) (found : Option Bucket)
    (level : Option Level) : Prop :=
  match found, level with
  | none, none => True
  | some b, some level =>
      b.tokens.toNat = level.tokens ∧ level.tokens ≤ maxTokens.toNat ∧
        b.lastRefill = level.last
  | _, _ => False

/-- No pause of the client lasts so long that its tokens wrap. -/
def NoLongPause (maxTokens : UInt32) (times : List Int) : Prop :=
  times.IsChain fun before after : Int =>
    after - before < 4294967296 - maxTokens.toNat

/-! ## One call -/

theorem toNat_ofInt (value : Int) :
    ((UInt32.ofInt value).toNat : Int) = value % 4294967296 := by
  rw [UInt32.ofInt]
  rw [UInt32.toNat_ofNat']
  omega

/-- A refill adds at most the seconds since the last call, and at most fills
the bucket. -/
theorem refill_le
    {b : Bucket} {maxTokens : UInt32} {last now : Int}
    (capped : b.tokens.toNat ≤ maxTokens.toNat)
    (aligned : (last - b.lastRefill) % 4294967296 = 0)
    (forward : last ≤ now) :
    ((b.refill maxTokens now).tokens.toNat : Int) ≤
        min (maxTokens.toNat : Int) (b.tokens.toNat + (now - last)) ∧
      (now - (b.refill maxTokens now).lastRefill) % 4294967296 = 0 := by
  have elapsed := toNat_ofInt (now - b.lastRefill)
  rw [Bucket.refill]
  simp only
  by_cases moved : 0 < UInt32.ofInt (now - b.lastRefill)
  · have added :=
      UInt32.toNat_add b.tokens (UInt32.ofInt (now - b.lastRefill))
    rw [if_pos moved]
    simp only
    split
    · rename_i full
      rw [UInt32.lt_iff_toNat_lt] at full
      omega
    · rename_i under
      rw [UInt32.lt_iff_toNat_lt] at under
      omega
  · have noTime : (0 : UInt32).toNat = 0 := rfl
    rw [if_neg moved]
    rw [UInt32.lt_iff_toNat_lt] at moved
    omega

/-- Without a long pause a refill adds all of these seconds. -/
theorem refill_eq
    {b : Bucket} {maxTokens : UInt32} {now : Int}
    (capped : b.tokens.toNat ≤ maxTokens.toNat)
    (forward : b.lastRefill ≤ now)
    (short : now - b.lastRefill < 4294967296 - maxTokens.toNat) :
    (b.refill maxTokens now).tokens.toNat =
        min maxTokens.toNat
          (b.tokens.toNat + (now - b.lastRefill).toNat) ∧
      (b.refill maxTokens now).lastRefill = now := by
  have elapsed := toNat_ofInt (now - b.lastRefill)
  have whole :
      (UInt32.ofInt (now - b.lastRefill)).toNat =
        (now - b.lastRefill).toNat := by
    omega
  rw [Bucket.refill]
  simp only
  by_cases moved : 0 < UInt32.ofInt (now - b.lastRefill)
  · have added :=
      UInt32.toNat_add b.tokens (UInt32.ofInt (now - b.lastRefill))
    have noWrap :
        b.tokens.toNat + (now - b.lastRefill).toNat < 2 ^ 32 := by
      omega
    rw [whole, Nat.mod_eq_of_lt noWrap] at added
    rw [if_pos moved]
    simp only
    split
    · rename_i full
      rw [UInt32.lt_iff_toNat_lt, added] at full
      exact ⟨(Nat.min_eq_left (Nat.le_of_lt full)).symm, trivial⟩
    · rename_i under
      rw [UInt32.lt_iff_toNat_lt, added] at under
      exact
        ⟨added.trans (Nat.min_eq_right (Nat.not_lt.mp under)).symm,
          trivial⟩
  · have noTime : (0 : UInt32).toNat = 0 := rfl
    rw [if_neg moved]
    rw [UInt32.lt_iff_toNat_lt] at moved
    omega

theorem toNat_sub_one {tokens : UInt32} (positive : 0 < tokens) :
    (tokens - 1).toNat = tokens.toNat - 1 := by
  have one : (1 : UInt32).toNat = 1 := rfl
  rw [UInt32.lt_iff_toNat_lt] at positive
  rw [UInt32.toNat_sub_of_le, one]
  rw [UInt32.le_iff_toNat_le, one]
  exact positive

/-- What `serve` does with a bucket, in terms of its refill. -/
theorem serve_some (maxTokens ip : UInt32) (now : Int) (b : Bucket) :
    (serve maxTokens ip now (some b)).1 =
        decide (0 < (b.refill maxTokens now).tokens.toNat) ∧
      (serve maxTokens ip now (some b)).2.tokens.toNat =
          (b.refill maxTokens now).tokens.toNat - 1 ∧
        (serve maxTokens ip now (some b)).2.lastRefill =
          (b.refill maxTokens now).lastRefill := by
  unfold serve
  simp only
  by_cases left : 0 < (b.refill maxTokens now).tokens
  · have leftNat : 0 < (b.refill maxTokens now).tokens.toNat :=
      UInt32.lt_iff_toNat_lt.mp left
    rw [if_pos left]
    exact ⟨(decide_eq_true leftNat).symm, toNat_sub_one left, rfl⟩
  · have noneLeft : ¬ 0 < (b.refill maxTokens now).tokens.toNat := by
      intro leftNat
      exact left (UInt32.lt_iff_toNat_lt.mpr leftNat)
    rw [if_neg left]
    exact ⟨(decide_eq_false noneLeft).symm, by simp only; omega, rfl⟩

/-- A call keeps the bucket below the level, and is granted only where the
level grants it. -/
theorem below_serve
    {maxTokens : UInt32} (positive : 0 < maxTokens) {ip : UInt32}
    {found : Option Bucket} {level : Option Level} {now : Int}
    (below : Below maxTokens found level)
    (forward : ∀ old, level = some old → old.last ≤ now) :
    Below maxTokens (some (serve maxTokens ip now found).2)
        (some (request maxTokens.toNat level now).2) ∧
      ((serve maxTokens ip now found).1 = true →
        (request maxTokens.toNat level now).1 = true) := by
  cases found with
  | none =>
      cases level with
      | none =>
          refine ⟨⟨?_, ?_, ?_⟩, fun _ => rfl⟩
          · exact Nat.le_of_eq (toNat_sub_one positive)
          · show (maxTokens - 1).toNat ≤ maxTokens.toNat
            rw [toNat_sub_one positive]
            exact Nat.sub_le _ _
          · show (now - now) % 4294967296 = 0
            omega
      | some level => exact absurd below id
  | some b =>
      cases level with
      | none => exact absurd below id
      | some level =>
          obtain ⟨held, capped, aligned⟩ := below
          obtain ⟨answer, tokens, refilled⟩ :=
            serve_some maxTokens ip now b
          obtain ⟨bound, alignedNow⟩ :=
            refill_le capped aligned (forward level rfl)
          refine ⟨⟨?_, ?_, ?_⟩, ?_⟩
          · simp only [tokens, request]
            omega
          · rw [tokens]
            omega
          · rw [refilled]
            exact alignedNow
          · rw [answer]
            simp only [request, decide_eq_true_eq]
            omega

/-- Without a long pause a call keeps the bucket at the level, and is granted
where the level grants it. -/
theorem exactly_serve
    {maxTokens : UInt32} (positive : 0 < maxTokens) {ip : UInt32}
    {found : Option Bucket} {level : Option Level} {now : Int}
    (exact : Exactly maxTokens found level)
    (forward :
      ∀ old, level = some old →
        old.last ≤ now ∧ now - old.last < 4294967296 - maxTokens.toNat) :
    Exactly maxTokens (some (serve maxTokens ip now found).2)
        (some (request maxTokens.toNat level now).2) ∧
      (serve maxTokens ip now found).1 =
        (request maxTokens.toNat level now).1 := by
  cases found with
  | none =>
      cases level with
      | none =>
          refine ⟨⟨?_, ?_, rfl⟩, rfl⟩
          · exact toNat_sub_one positive
          · exact Nat.sub_le _ _
      | some level => exact absurd exact id
  | some b =>
      cases level with
      | none => exact absurd exact id
      | some level =>
          obtain ⟨same, capped, sameTime⟩ := exact
          obtain ⟨after, short⟩ := forward level rfl
          obtain ⟨answer, tokens, refilled⟩ :=
            serve_some maxTokens ip now b
          rw [← sameTime] at after short
          rw [← same] at capped
          obtain ⟨filled, last⟩ := refill_eq capped after short
          rw [filled] at answer tokens
          rw [last] at refilled
          refine ⟨⟨?_, ?_, ?_⟩, ?_⟩
          · rw [tokens]
            simp only [request, same, sameTime]
          · simp only [request]
            omega
          · exact refilled
          · rw [answer]
            simp only [request, same, sameTime]

/-! ## Runs -/

theorem timesOf_cons_self
    (call : LimiterCall) (later : List LimiterCall) :
    timesOf call.ip (call :: later) =
      call.time :: timesOf call.ip later := by
  simp [timesOf]

theorem timesOf_cons_other
    {call : LimiterCall} {ip : UInt32} (different : call.ip ≠ ip)
    (later : List LimiterCall) :
    timesOf ip (call :: later) = timesOf ip later := by
  simp [timesOf, different]

theorem timesOf_sublist (ip : UInt32) (calls : List LimiterCall) :
    (timesOf ip calls).Sublist (calls.map LimiterCall.time) :=
  List.Sublist.map LimiterCall.time List.filter_sublist

theorem bucketOf_limiterCall_self
    {maxTokens : UInt32} {ctx : RateLimiter tableSize}
    (limit : ctx.maxTokens = maxTokens) (call : LimiterCall) :
    (limiterCall ctx call).bucketOf call.ip =
      some (serve maxTokens call.ip call.time
        (ctx.bucketOf call.ip)).2 := by
  rw [← limit]
  exact bucketOf_rlCheck_self ctx call.ip call.time

theorem bucketOf_limiterCall_other
    {ip : UInt32} (ctx : RateLimiter tableSize) {call : LimiterCall}
    (isOther : call.ip ≠ ip) :
    (limiterCall ctx call).bucketOf ip = ctx.bucketOf ip :=
  bucketOf_rlCheck_other ctx call.time isOther

/-- The answer to a client is that of its bucket. -/
theorem rlCheck_answer
    {maxTokens : UInt32} {ctx : RateLimiter tableSize}
    (limit : ctx.maxTokens = maxTokens) (call : LimiterCall) :
    (rlCheck ctx call.ip call.time).1 =
      (serve maxTokens call.ip call.time (ctx.bucketOf call.ip)).1 := by
  rw [← limit]
  rfl

theorem admittedTimes_cons_self
    (ctx : RateLimiter tableSize) (call : LimiterCall)
    (later : List LimiterCall) :
    admittedTimes ctx call.ip (call :: later) =
      if (rlCheck ctx call.ip call.time).1 = true then
        call.time :: admittedTimes (limiterCall ctx call) call.ip later
      else admittedTimes (limiterCall ctx call) call.ip later := by
  simp only [admittedTimes, true_and]

theorem admittedTimes_cons_other
    {ip : UInt32} (ctx : RateLimiter tableSize) {call : LimiterCall}
    (isOther : call.ip ≠ ip) (later : List LimiterCall) :
    admittedTimes ctx ip (call :: later) =
      admittedTimes (limiterCall ctx call) ip later := by
  rw [admittedTimes, if_neg (fun both => isOther both.1)]

/-- The later calls are not earlier than the last request. -/
theorem forward_request
    {capacity : Nat} {level : Option Level} {call : LimiterCall}
    {later : List LimiterCall}
    (clocked : ∀ time, time ∈ later.map LimiterCall.time →
      call.time ≤ time) :
    ∀ old, some (request capacity level call.time).2 = some old →
      ∀ other, other ∈ later → old.last ≤ other.time := by
  intro old isOld other member
  cases isOld
  rw [request_last]
  exact clocked other.time (List.mem_map_of_mem member)

/-- The calls that are admitted are granted by the token bucket of the client,
whatever the other clients do. -/
theorem admittedTimes_sublist
    {maxTokens : UInt32} (positive : 0 < maxTokens) (ip : UInt32)
    {ctx : RateLimiter tableSize} {level : Option Level}
    {calls : List LimiterCall} (limit : ctx.maxTokens = maxTokens)
    (below : Below maxTokens (ctx.bucketOf ip) level)
    (clocked : (calls.map LimiterCall.time).Pairwise (· ≤ ·))
    (forward :
      ∀ old, level = some old →
        ∀ call, call ∈ calls → old.last ≤ call.time) :
    (admittedTimes ctx ip calls).Sublist
      (granted maxTokens.toNat level (timesOf ip calls)) := by
  induction calls generalizing ctx level with
  | nil => exact List.nil_sublist _
  | cons call later inductionHypothesis =>
      rw [List.map_cons, List.pairwise_cons] at clocked
      by_cases isClient : call.ip = ip
      · subst isClient
        obtain ⟨belowNext, grants⟩ :=
          @below_serve maxTokens positive call.ip
            (ctx.bucketOf call.ip) level call.time below
            (fun old isOld =>
              forward old isOld call List.mem_cons_self)
        have bucketNext := bucketOf_limiterCall_self limit call
        rw [← bucketNext] at belowNext
        have rest :=
          @inductionHypothesis (limiterCall ctx call)
            (some (request maxTokens.toNat level call.time).2) limit
            belowNext clocked.2
            (forward_request clocked.1)
        rw [admittedTimes_cons_self, timesOf_cons_self,
          rlCheck_answer limit]
        cases grant : (request maxTokens.toNat level call.time).1 with
        | true =>
            rw [granted_cons_of_grant grant]
            split
            · exact rest.cons_cons call.time
            · exact rest.cons call.time
        | false =>
            rw [granted_cons_of_refusal grant, if_neg]
            · exact rest
            · intro admitted
              rw [grants admitted] at grant
              cases grant
      · have rest :=
          @inductionHypothesis (limiterCall ctx call) level limit
            (by
              rw [bucketOf_limiterCall_other ctx isClient]
              exact below)
            clocked.2
            (fun old isOld other member =>
              forward old isOld other (List.mem_cons_of_mem call member))
        rw [admittedTimes_cons_other ctx isClient,
          timesOf_cons_other isClient]
        exact rest

/-- Without long pauses the calls that are admitted are those that the token
bucket grants. -/
theorem admittedTimes_eq
    {maxTokens : UInt32} (positive : 0 < maxTokens) (ip : UInt32)
    {ctx : RateLimiter tableSize} {level : Option Level}
    {calls : List LimiterCall} (limit : ctx.maxTokens = maxTokens)
    (exactly : Exactly maxTokens (ctx.bucketOf ip) level)
    (clocked : (calls.map LimiterCall.time).Pairwise (· ≤ ·))
    (brisk :
      NoLongPause maxTokens
        ((level.map Level.last).toList ++ timesOf ip calls))
    (forward :
      ∀ old, level = some old →
        ∀ call, call ∈ calls → old.last ≤ call.time) :
    admittedTimes ctx ip calls =
      granted maxTokens.toNat level (timesOf ip calls) := by
  induction calls generalizing ctx level with
  | nil => rfl
  | cons call later inductionHypothesis =>
      rw [List.map_cons, List.pairwise_cons] at clocked
      by_cases isClient : call.ip = ip
      · subst isClient
        rw [timesOf_cons_self] at brisk
        have short :
            ∀ old, level = some old →
              old.last ≤ call.time ∧
                call.time - old.last <
                  4294967296 - maxTokens.toNat := by
          intro old isOld
          subst isOld
          exact ⟨forward old rfl call List.mem_cons_self,
            (List.isChain_cons_cons.mp brisk).1⟩
        obtain ⟨exactNext, sameAnswer⟩ :=
          @exactly_serve maxTokens positive call.ip
            (ctx.bucketOf call.ip) level call.time exactly short
        have bucketNext := bucketOf_limiterCall_self limit call
        rw [← bucketNext] at exactNext
        have briskNext :
            NoLongPause maxTokens
              (call.time :: timesOf call.ip later) := by
          cases level with
          | none => exact brisk
          | some old => exact (List.isChain_cons_cons.mp brisk).2
        have rest :=
          @inductionHypothesis (limiterCall ctx call)
            (some (request maxTokens.toNat level call.time).2) limit
            exactNext clocked.2
            (by
              rw [Option.map_some, Option.toList_some, request_last]
              exact briskNext)
            (forward_request clocked.1)
        rw [admittedTimes_cons_self, timesOf_cons_self, rest,
          rlCheck_answer limit, sameAnswer]
        cases grant : (request maxTokens.toNat level call.time).1 with
        | true => rw [granted_cons_of_grant grant, if_pos rfl]
        | false =>
            rw [granted_cons_of_refusal grant, if_neg Bool.false_ne_true]
      · have sameTimes :=
          timesOf_cons_other isClient later
        rw [sameTimes] at brisk
        have rest :=
          @inductionHypothesis (limiterCall ctx call) level limit
            (by
              rw [bucketOf_limiterCall_other ctx isClient]
              exact exactly)
            clocked.2 brisk
            (fun old isOld other member =>
              forward old isOld other (List.mem_cons_of_mem call member))
        rw [admittedTimes_cons_other ctx isClient, sameTimes]
        exact rest

theorem admittedTimes_length_le
    (ip : UInt32) (ctx : RateLimiter tableSize)
    (calls : List LimiterCall) :
    (admittedTimes ctx ip calls).length ≤ (timesOf ip calls).length := by
  induction calls generalizing ctx with
  | nil => exact Nat.le_refl 0
  | cons call later inductionHypothesis =>
      have rest := inductionHypothesis (limiterCall ctx call)
      rw [admittedTimes]
      split
      · rename_i both
        rw [← both.1] at rest ⊢
        rw [timesOf_cons_self, List.length_cons, List.length_cons]
        exact Nat.succ_le_succ rest
      · refine Nat.le_trans rest ?_
        by_cases isClient : call.ip = ip
        · subst isClient
          rw [timesOf_cons_self, List.length_cons]
          exact Nat.le_succ _
        · rw [timesOf_cons_other isClient]

/-- Every call of the client returns one. -/
def AdmitsAll (ctx : RateLimiter tableSize) (ip : UInt32)
    (calls : List LimiterCall) : Prop :=
  Along limiterCall
    (fun state call =>
      call.ip = ip → (rlCheck state call.ip call.time).1 = true)
    ctx calls

theorem admittedTimes_eq_timesOf_iff
    (ip : UInt32) {ctx : RateLimiter tableSize} {calls : List LimiterCall} :
    admittedTimes ctx ip calls = timesOf ip calls ↔
      AdmitsAll ctx ip calls := by
  induction calls generalizing ctx with
  | nil => exact ⟨fun _ => along_nil, fun _ => rfl⟩
  | cons call later inductionHypothesis =>
      have rest := @inductionHypothesis (limiterCall ctx call)
      rw [AdmitsAll] at rest ⊢
      rw [along_cons_iff]
      by_cases isClient : call.ip = ip
      · subst isClient
        rw [admittedTimes_cons_self, timesOf_cons_self]
        by_cases admitted : (rlCheck ctx call.ip call.time).1 = true
        · rw [if_pos admitted, List.cons.injEq, and_iff_right rfl,
            rest, and_iff_right fun _ => admitted]
        · rw [if_neg admitted]
          constructor
          · intro same
            -- the calls that are left are too few
            have fewer :=
              (admittedTimes_length_le call.ip (limiterCall ctx call)
                later)
            rw [same, List.length_cons] at fewer
            omega
          · intro both
            exact absurd (both.1 rfl) admitted
      · rw [admittedTimes_cons_other ctx isClient,
          timesOf_cons_other isClient, rest,
          and_iff_right fun same => absurd same isClient]

theorem bucketOf_rlCreate (maxTokens ip : UInt32) :
    (rlCreate tableSize maxTokens).bucketOf ip = none :=
  rfl

/-- In every window of whole seconds a client gets at most as many calls
admitted as there are tokens and seconds in the window. -/
theorem rlCheck_bounds_bursts
    (maxTokens : UInt32) (positive : 0 < maxTokens)
    (calls : List LimiterCall)
    (clocked : (calls.map LimiterCall.time).Pairwise (· ≤ ·))
    (ip : UInt32) (start : Int) (seconds : Nat) :
    within start (start + seconds)
        (admittedTimes (rlCreate tableSize maxTokens) ip calls) ≤
      maxTokens.toNat + seconds := by
  have positiveNat : 0 < maxTokens.toNat :=
    UInt32.lt_iff_toNat_lt.mp positive
  have sublist :=
    @admittedTimes_sublist tableSize _ maxTokens positive ip
      (rlCreate tableSize maxTokens) none calls rfl
      (by rw [bucketOf_rlCreate]; exact trivial) clocked
      (fun _ isSome => by cases isSome)
  have bound :=
    @within_granted_le maxTokens.toNat positiveNat start
      (start + seconds) (by omega) none (timesOf ip calls)
      (clocked.sublist (timesOf_sublist ip calls))
  have admitted :=
    @within_le_of_sublist start (start + seconds) _ _ sublist
  omega

/-- Twenty-five calls of one client in the same second. -/
def burst : List LimiterCall :=
  List.replicate 25 ⟨1, 0⟩

theorem rlCheck_bounds_bursts_burst :
    within 0 (0 + (0 : Nat))
        (admittedTimes (rlCreate 256 20) 1 burst) ≤ 20 + 0 :=
  rlCheck_bounds_bursts 20 (by decide) burst (by decide +kernel) 1 0 0

/-! ## The promise of the parameter -/

/-- When every call of a client is admitted, its calls are paced like a bucket
with one token a second; and calls so paced are all admitted, as long as no
pause lasts about 2^32 seconds. -/
theorem admitsAll_paced
    (maxTokens : UInt32) (positive : 0 < maxTokens)
    (calls : List LimiterCall)
    (clocked : (calls.map LimiterCall.time).Pairwise (· ≤ ·))
    (ip : UInt32) :
    (AdmitsAll (rlCreate tableSize maxTokens) ip calls →
        Paced maxTokens.toNat (timesOf ip calls)) ∧
      (Paced maxTokens.toNat (timesOf ip calls) →
        NoLongPause maxTokens (timesOf ip calls) →
          AdmitsAll (rlCreate tableSize maxTokens) ip calls) := by
  have positiveNat : 0 < maxTokens.toNat :=
    UInt32.lt_iff_toNat_lt.mp positive
  have clockedClient : (timesOf ip calls).Pairwise (· ≤ ·) :=
    clocked.sublist (timesOf_sublist ip calls)
  have paced :=
    @granted_eq_self_iff_paced maxTokens.toNat positiveNat
      (timesOf ip calls) clockedClient
  have bucket :
      Below maxTokens ((rlCreate tableSize maxTokens).bucketOf ip)
        none := by
    rw [bucketOf_rlCreate]
    exact trivial
  have sublist :=
    @admittedTimes_sublist tableSize _ maxTokens positive ip
      (rlCreate tableSize maxTokens) none calls rfl bucket clocked
      (fun _ isSome => by cases isSome)
  constructor
  · intro admitsAll
    rw [← admittedTimes_eq_timesOf_iff] at admitsAll
    rw [← paced]
    rw [admitsAll] at sublist
    exact
      ((granted_sublist maxTokens.toNat none
        (timesOf ip calls)).antisymm sublist)
  · intro isPaced brisk
    have exactBucket :
        Exactly maxTokens ((rlCreate tableSize maxTokens).bucketOf ip)
          none := by
      rw [bucketOf_rlCreate]
      exact trivial
    have same :=
      @admittedTimes_eq tableSize _ maxTokens positive ip
        (rlCreate tableSize maxTokens) none calls rfl exactBucket clocked
        brisk (fun _ isSome => by cases isSome)
    rw [← admittedTimes_eq_timesOf_iff, same, paced]
    exact isPaced

theorem admitsAll_paced_oncePerSecond :
    AdmitsAll (rlCreate 256 20) 1 [⟨1, 0⟩, ⟨1, 1⟩] := by
  refine
    (admitsAll_paced 20 (by decide) [⟨1, 0⟩, ⟨1, 1⟩] (by decide) 1).2
      ?_ ?_
  · intro start stop proper
    have few :
        within start stop (timesOf 1 [⟨1, 0⟩, ⟨1, 1⟩]) ≤ 2 :=
      List.countP_le_length
    have twenty : (20 : UInt32).toNat = 20 := rfl
    omega
  · have chain : List.IsChain (fun earlier later : Int =>
        later - earlier < 4294967296 - (20 : UInt32).toNat) [0, 1] := by
      simp
    exact chain

/-- A client that makes at most `max_queries_per_sec` calls in each second
would have them all admitted. -/
def PromiseKept : Prop :=
  ∀ (tableSize : Nat) [NeZero tableSize] (maxQueriesPerSec : UInt32)
    (calls : List LimiterCall) (ip : UInt32),
    0 < maxQueriesPerSec →
      (calls.map LimiterCall.time).Pairwise (· ≤ ·) →
        (∀ second : Int,
          within second second (timesOf ip calls) ≤
            maxQueriesPerSec.toNat) →
          AdmitsAll (rlCreate tableSize maxQueriesPerSec) ip calls

/-- With the limiter of the firewall, twenty calls in one second leave one call
for the next. -/
theorem not_promiseKept : ¬ PromiseKept := by
  intro kept
  have admits :=
    kept 256 20 (List.replicate 20 ⟨1, 0⟩ ++ [⟨1, 1⟩, ⟨1, 1⟩]) 1
      (by decide) (by decide +kernel)
      (by
        intro second
        have times :
            timesOf 1 (List.replicate 20 ⟨1, 0⟩ ++ [⟨1, 1⟩, ⟨1, 1⟩]) =
              List.replicate 20 0 ++ [1, 1] := by
          decide +kernel
        have twenty : (20 : UInt32).toNat = 20 := rfl
        rw [times, within_append, twenty]
        by_cases first : second = 0
        · subst first
          decide
        · have none : within second second (List.replicate 20 0) = 0 := by
            apply List.countP_eq_zero.mpr
            intro time member
            rw [List.eq_of_mem_replicate member]
            simp only [decide_eq_true_eq]
            omega
          have two : within second second [1, 1] ≤ 2 :=
            List.countP_le_length
          omega)
  have last :=
    admits (List.replicate 20 ⟨1, 0⟩ ++ [⟨1, 1⟩]) ⟨1, 1⟩ [] (by decide) rfl
  have refused :
      (rlCheck
        (run limiterCall (rlCreate 256 20)
          (List.replicate 20 ⟨1, 0⟩ ++ [⟨1, 1⟩]))
        1 1).1 = false := by
    decide +kernel
  rw [refused] at last
  cases last

end DnsFirewall
