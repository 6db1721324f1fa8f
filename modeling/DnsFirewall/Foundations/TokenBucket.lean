import Mathlib.Data.List.Basic
import Mathlib.Data.List.Sublists

/-!
# Token buckets

A bucket holds up to `capacity` tokens, gains one for every second and gives
one to every request it grants.  It starts full at the first request.  In a
window of time it grants at most `capacity` requests more than the window has
seconds, and it grants every request exactly when no window asks for more than
that.
-/

namespace DnsFirewall.TokenBucket

/-- The tokens left at the last request. -/
structure Level where
  tokens : Nat
  last : Int

/-- A request: whether it is granted, and what it leaves. -/
def request (capacity : Nat) (level : Option Level) (now : Int) :
    Bool × Level :=
  match level with
  | none => (true, ⟨capacity - 1, now⟩)
  | some level =>
      let tokens :=
        min capacity (level.tokens + (now - level.last).toNat)
      (decide (0 < tokens), ⟨tokens - 1, now⟩)

/-- The times of the requests that are granted. -/
def granted (capacity : Nat) : Option Level → List Int → List Int
  | _, [] => []
  | level, now :: later =>
      let (grant, next) := request capacity level now
      if grant = true then now :: granted capacity (some next) later
      else granted capacity (some next) later

/-- The number of times within a window. -/
def within (start stop : Int) (times : List Int) : Nat :=
  times.countP fun time => start ≤ time ∧ time ≤ stop

/-- No window asks for more than the bucket can hold and gain. -/
def Paced (capacity : Nat) (times : List Int) : Prop :=
  ∀ start stop : Int, start ≤ stop →
    (within start stop times : Int) ≤ capacity + (stop - start)

@[simp]
theorem within_nil (start stop : Int) : within start stop [] = 0 :=
  rfl

theorem within_cons_of_inside
    {start stop now : Int} (lower : start ≤ now) (upper : now ≤ stop)
    (times : List Int) :
    within start stop (now :: times) = within start stop times + 1 :=
  List.countP_cons_of_pos (by simp [lower, upper])

theorem within_cons_of_outside
    {start stop now : Int} (outside : now < start ∨ stop < now)
    (times : List Int) :
    within start stop (now :: times) = within start stop times :=
  List.countP_cons_of_neg (by
    simp only [decide_eq_true_eq]
    omega)

theorem within_eq_zero
    {start stop : Int} {times : List Int}
    (late : ∀ time, time ∈ times → stop < time) :
    within start stop times = 0 := by
  apply List.countP_eq_zero.mpr
  intro time member inside
  have later := late time member
  simp only [decide_eq_true_eq] at inside
  omega

theorem within_append (start stop : Int) (front back : List Int) :
    within start stop (front ++ back) =
      within start stop front + within start stop back :=
  List.countP_append

theorem within_le_of_sublist
    {start stop : Int} {part whole : List Int}
    (sublist : part.Sublist whole) :
    within start stop part ≤ within start stop whole :=
  sublist.countP_le

theorem granted_cons_of_grant
    {capacity : Nat} {level : Option Level} {now : Int}
    (grant : (request capacity level now).1 = true) (later : List Int) :
    granted capacity level (now :: later) =
      now ::
        granted capacity (some (request capacity level now).2) later := by
  rw [granted]
  simp only [grant, if_true]

theorem granted_cons_of_refusal
    {capacity : Nat} {level : Option Level} {now : Int}
    (refusal : (request capacity level now).1 = false)
    (later : List Int) :
    granted capacity level (now :: later) =
      granted capacity (some (request capacity level now).2) later := by
  rw [granted]
  simp only [refusal, Bool.false_eq_true, if_false]

theorem request_last
    (capacity : Nat) (level : Option Level) (now : Int) :
    (request capacity level now).2.last = now := by
  cases level with
  | none => rfl
  | some old => rfl

/-- The tokens behind a request are those of a capped bucket, less the one
that was given. -/
theorem request_tokens_le
    {capacity : Nat} {level : Level} {now : Int}
    (forward : level.last ≤ now) :
    ((request capacity (some level) now).2.tokens : Int) +
        (if (request capacity (some level) now).1 = true then 1 else 0) ≤
      level.tokens + (now - level.last) := by
  rw [request]
  simp only [decide_eq_true_eq]
  by_cases grant :
      0 < min capacity (level.tokens + (now - level.last).toNat)
  · rw [if_pos grant]
    omega
  · rw [if_neg grant]
    omega

theorem request_tokens_lt
    {capacity : Nat} (positive : 0 < capacity) (level : Option Level)
    (now : Int) :
    (request capacity level now).2.tokens < capacity := by
  cases level with
  | none =>
      simp only [request]
      omega
  | some old =>
      simp only [request]
      omega

theorem granted_sublist
    (capacity : Nat) (level : Option Level) (times : List Int) :
    (granted capacity level times).Sublist times := by
  induction times generalizing level with
  | nil => exact List.Sublist.slnil
  | cons now later inductionHypothesis =>
      have rest :=
        inductionHypothesis (some (request capacity level now).2)
      cases answer : (request capacity level now).1 with
      | true =>
          rw [granted_cons_of_grant answer]
          exact rest.cons_cons now
      | false =>
          rw [granted_cons_of_refusal answer]
          exact rest.cons now

/-! ## What a window gets -/

/-- The grants of a window that is already open are paid for by the tokens
left and those still to come. -/
theorem within_granted_open
    {capacity : Nat} {start stop : Int} {level : Level} {times : List Int}
    (opened : start ≤ level.last) (inside : level.last ≤ stop)
    (clocked : (level.last :: times).Pairwise (· ≤ ·)) :
    (within start stop (granted capacity (some level) times) : Int) ≤
      level.tokens + (stop - level.last) := by
  induction times generalizing level with
  | nil =>
      simp only [granted, within_nil]
      omega
  | cons now later inductionHypothesis =>
      obtain ⟨fromLast, clockedLater⟩ := List.pairwise_cons.mp clocked
      have forward : level.last ≤ now := fromLast now List.mem_cons_self
      by_cases closed : stop < now
      · have late :
            ∀ time, time ∈ granted capacity (some level) (now :: later) →
              stop < time := by
          intro time member
          have requested :=
            (granted_sublist capacity (some level) (now :: later)).subset
              member
          rcases List.mem_cons.mp requested with rfl | tail
          · exact closed
          · exact Int.lt_of_lt_of_le closed
              ((List.pairwise_cons.mp clockedLater).1 time tail)
        rw [within_eq_zero late]
        omega
      · have rest :=
          @inductionHypothesis (request capacity (some level) now).2
            (by rw [request_last]; exact Int.le_trans opened forward)
            (by rw [request_last]; exact Int.not_lt.mp closed)
            (by rw [request_last]; exact clockedLater)
        have paid := @request_tokens_le capacity level now forward
        rw [request_last] at rest
        cases answer : (request capacity (some level) now).1 with
        | true =>
            rw [answer, if_pos rfl] at paid
            rw [granted_cons_of_grant answer,
              within_cons_of_inside (Int.le_trans opened forward)
                (Int.not_lt.mp closed)]
            omega
        | false =>
            rw [answer, if_neg Bool.false_ne_true] at paid
            rw [granted_cons_of_refusal answer]
            omega

/-- A window gets at most the capacity and one request for each second. -/
theorem within_granted_le
    {capacity : Nat} (positive : 0 < capacity) {start stop : Int}
    (proper : start ≤ stop) (level : Option Level) {times : List Int}
    (clocked : times.Pairwise (· ≤ ·)) :
    (within start stop (granted capacity level times) : Int) ≤
      capacity + (stop - start) := by
  induction times generalizing level with
  | nil =>
      simp only [granted, within_nil]
      omega
  | cons now later inductionHypothesis =>
      obtain ⟨_, clockedLater⟩ := List.pairwise_cons.mp clocked
      by_cases inside : start ≤ now ∧ now ≤ stop
      · have rest :=
          @within_granted_open capacity start stop
            (request capacity level now).2 later
            (by rw [request_last]; exact inside.1)
            (by rw [request_last]; exact inside.2)
            (by rw [request_last]; exact clocked)
        have held := request_tokens_lt positive level now
        rw [request_last] at rest
        cases answer : (request capacity level now).1 with
        | true =>
            rw [granted_cons_of_grant answer,
              within_cons_of_inside inside.1 inside.2]
            omega
        | false =>
            rw [granted_cons_of_refusal answer]
            omega
      · have rest :=
          inductionHypothesis (some (request capacity level now).2)
            clockedLater
        cases answer : (request capacity level now).1 with
        | true =>
            rw [granted_cons_of_grant answer,
              within_cons_of_outside (by omega)]
            exact rest
        | false =>
            rw [granted_cons_of_refusal answer]
            exact rest

/-! ## When everything is granted -/

theorem within_eq_of_le
    {start stop later : Int} {times : List Int}
    (early : ∀ time, time ∈ times → time ≤ stop) (forward : stop ≤ later) :
    within start later times = within start stop times := by
  apply List.countP_congr
  intro time member
  have bound := early time member
  simp only [decide_eq_true_eq]
  omega

/-- A request that finds the bucket full again. -/
theorem request_of_overflow
    {capacity : Nat} (positive : 0 < capacity) {level : Level} {now : Int}
    (overflows : capacity < level.tokens + (now - level.last).toNat) :
    request capacity (some level) now = (true, ⟨capacity - 1, now⟩) := by
  rw [request]
  simp only [Nat.min_eq_left (Nat.le_of_lt overflows),
    decide_eq_true positive]

/-- A request that finds tokens in a bucket that has not been full again. -/
theorem request_of_fit
    {capacity : Nat} {level : Level} {now : Int}
    (fits : level.tokens + (now - level.last).toNat ≤ capacity)
    (left : 0 < level.tokens + (now - level.last).toNat) :
    request capacity (some level) now =
      (true, ⟨level.tokens + (now - level.last).toNat - 1, now⟩) := by
  rw [request]
  simp only [Nat.min_eq_right fits, decide_eq_true left]

/-- In the second of its own, the last request is alone. -/
theorem within_self_append
    {past : List Int} {now : Int} (earlier : ∀ time, time ∈ past → time < now) :
    within now now (past ++ [now]) = 1 := by
  have noneBefore : within now now past = 0 := by
    apply List.countP_eq_zero.mpr
    intro time member inside
    have bound := earlier time member
    simp only [decide_eq_true_eq] at inside
    omega
  rw [within_append, noneBefore,
    within_cons_of_inside (Int.le_refl now) (Int.le_refl now)]
  rfl

/-- A bucket that was full at `full` and has paid for every request since then
goes on doing so as long as the requests are paced. -/
theorem granted_eq_self_of_account
    {capacity : Nat} (positive : 0 < capacity) {full : Int}
    {past : List Int} {level : Level} {times : List Int}
    (started : full ≤ level.last) (capped : level.tokens ≤ capacity)
    (account :
      (level.tokens : Int) + within full level.last past =
        capacity + (level.last - full))
    (early : ∀ time, time ∈ past → time ≤ level.last)
    (clocked : (level.last :: times).Pairwise (· ≤ ·))
    (paced : Paced capacity (past ++ times)) :
    granted capacity (some level) times = times := by
  induction times generalizing full past level with
  | nil => rfl
  | cons now later inductionHypothesis =>
      obtain ⟨fromLast, clockedLater⟩ := List.pairwise_cons.mp clocked
      have forward : level.last ≤ now := fromLast now List.mem_cons_self
      have earlyNow : ∀ time, time ∈ past ++ [now] → time ≤ now := by
        intro time member
        rcases List.mem_append.mp member with before | here
        · exact Int.le_trans (early time before) forward
        · exact Int.le_of_eq (List.mem_singleton.mp here)
      have pacedNow : Paced capacity ((past ++ [now]) ++ later) := by
        rw [List.append_assoc]
        exact paced
      have samePast := @within_eq_of_le full level.last now past early forward
      by_cases overflows :
          capacity < level.tokens + (now - level.last).toNat
      · -- the bucket is full again
        have next := request_of_overflow positive overflows
        have onlyNow : within now now (past ++ [now]) = 1 := by
          apply within_self_append
          intro time member
          have bound := early time member
          omega
        have rest :=
          @inductionHypothesis now (past ++ [now]) ⟨capacity - 1, now⟩
            (Int.le_refl now) (Nat.sub_le capacity 1)
            (by simp only [onlyNow]; omega)
            earlyNow clockedLater pacedNow
        rw [granted_cons_of_grant (by rw [next]), next, rest]
      · have window :
            (within full now (past ++ now :: later) : Int) ≤
              capacity + (now - full) :=
          paced full now (Int.le_trans started forward)
        rw [within_append, samePast,
          within_cons_of_inside (Int.le_trans started forward)
            (Int.le_refl now)] at window
        have left : 0 < level.tokens + (now - level.last).toNat := by
          omega
        have next := request_of_fit (Nat.not_lt.mp overflows) left
        have counted :
            within full now (past ++ [now]) =
              within full level.last past + 1 := by
          rw [within_append, samePast,
            within_cons_of_inside (Int.le_trans started forward)
              (Int.le_refl now)]
          rfl
        have rest :=
          @inductionHypothesis full (past ++ [now])
            ⟨level.tokens + (now - level.last).toNat - 1, now⟩
            (Int.le_trans started forward) (by simp only; omega)
            (by simp only [counted]; omega) earlyNow clockedLater pacedNow
        rw [granted_cons_of_grant (by rw [next]), next, rest]

/-- A bucket grants every request exactly when the requests are paced. -/
theorem granted_eq_self_iff_paced
    {capacity : Nat} (positive : 0 < capacity) {times : List Int}
    (clocked : times.Pairwise (· ≤ ·)) :
    granted capacity none times = times ↔ Paced capacity times := by
  constructor
  · intro all start stop proper
    have bound := @within_granted_le capacity positive start stop proper
      none times clocked
    rw [all] at bound
    exact bound
  · intro paced
    cases times with
    | nil => rfl
    | cons now later =>
        have once : within now now [now] = 1 :=
          within_cons_of_inside (Int.le_refl now) (Int.le_refl now) []
        have rest :=
          @granted_eq_self_of_account capacity positive now [now]
            ⟨capacity - 1, now⟩ later (Int.le_refl now)
            (Nat.sub_le capacity 1)
            (by simp only [once]; omega)
            (fun time member =>
              Int.le_of_eq (List.mem_singleton.mp member))
            clocked paced
        rw [granted_cons_of_grant rfl]
        exact congrArg (now :: ·) rest

end DnsFirewall.TokenBucket
