import DnsFirewall.Resolver.PoolLocks

/-!
# The connection pool in every order of steps

What is on a connection is one whole exchange after another, a worker behind a
mutex leaves it within seven of its own steps, and a worker that goes round the
slots has a connection within fourteen, while the others leave it one slot.
-/

namespace DnsFirewall

open CString Runs

/-! ## Every order of steps -/

namespace PoolPhase

/-- How many steps a worker behind a mutex needs at most to leave it. -/
def left : PoolPhase → Nat
  | .testing => 6
  | .opening slot => 5 - slot.val
  | .publishing | .unlocking => 1
  | .examining _ => 7
  | .reconnecting _ => 6
  | .releasing _ => 1
  | .sendingLength _ _ => 5
  | .sendingQuery _ _ => 4
  | .readingLength _ _ => 3
  | .readingReply _ _ _ _ _ | .closing _ _ _ => 2
  | .returning _ _ _ _ => 1
  | _ => 0

theorem left_le (phase : PoolPhase) : phase.left ≤ 7 := by
  cases phase with
  | opening slot => exact le_trans (Nat.sub_le 5 slot.val) (by decide)
  | _ => simp only [left]; omega

/-- The worker has a mutex exactly when it has steps to leave it. -/
theorem left_eq_zero_iff (phase : PoolPhase) :
    phase.left = 0 ↔ phase.inside = false ∧ phase.slot = none := by
  cases phase with
  | opening slot =>
      have bound : slot.val < 4 := slot.isLt
      refine iff_of_false ?_ fun outside => by cases outside.1
      rw [left]
      omega
  | _ => simp [left, inside, slot]

end PoolPhase

namespace PoolSystem

variable {W : Type} [DecidableEq W] {ip : Bytes} {s : PoolSystem W}

theorem phase_put
    (s : PoolSystem W) (worker : W) (next : PoolPhase)
    (slot : Fin tcpPoolSize) (after : PoolSlot W)
    (log : List (PoolEvent W)) :
    (s.put worker next slot after log).phase worker = next :=
  Function.update_self _ _ _

theorem phase_goto (s : PoolSystem W) (worker : W) (next : PoolPhase) :
    (s.goto worker next).phase worker = next :=
  Function.update_self _ _ _

/-- A step of a worker behind a mutex brings it nearer to leave it. -/
theorem left_advance_lt
    {worker : W} (behind : 0 < (s.phase worker).left)
    (answer : PoolAnswer) :
    ((s.advance ip worker answer).phase worker).left <
      (s.phase worker).left := by
  rw [advance]
  cases at_ : s.phase worker with
  | idle =>
      rw [at_] at behind
      cases behind
  | checking =>
      rw [at_] at behind
      cases behind
  | locking =>
      rw [at_] at behind
      cases behind
  | trying slot =>
      rw [at_] at behind
      cases behind
  | testing =>
      simp only
      split
      · rw [phase_goto]
        simp [PoolPhase.left]
      · split
        · rw [phase_goto]
          simp [PoolPhase.left]
        · rw [phase_goto]
          exact Nat.lt_succ_of_le (Nat.sub_le 5 _)
  | opening slot =>
      have bound : slot.val < 4 := slot.isLt
      simp only
      rw [phase_put]
      split
      · rename_i more
        have next : (nextSlot slot).val = slot.val + 1 :=
          Nat.mod_eq_of_lt more
        simp only [PoolPhase.left, next]
        omega
      · simp only [PoolPhase.left]
        omega
  | publishing =>
      show (Function.update s.phase worker _ worker).left < _
      rw [Function.update_self]
      simp [PoolPhase.left]
  | unlocking =>
      show (Function.update s.phase worker _ worker).left < _
      rw [Function.update_self]
      simp [PoolPhase.left]
  | examining slot =>
      simp only
      split
      · rw [phase_put]
        simp [PoolPhase.left]
      · rw [phase_goto]
        simp [PoolPhase.left]
  | reconnecting slot =>
      simp only
      split
      · rw [phase_put]
        simp [PoolPhase.left]
      · rw [phase_goto]
        simp [PoolPhase.left]
  | releasing slot =>
      simp only
      rw [phase_put]
      simp [PoolPhase.left]
  | sendingLength slot borrowed =>
      simp only
      split
      · rw [phase_goto]
        simp [PoolPhase.left]
      · rw [phase_goto]
        simp [PoolPhase.left]
  | sendingQuery slot borrowed =>
      simp only
      split
      · rw [phase_goto]
        simp [PoolPhase.left]
      · rw [phase_goto]
        simp [PoolPhase.left]
  | readingLength slot borrowed =>
      simp only
      split
      · rw [phase_put]
        split
        · simp [PoolPhase.left]
        · simp [PoolPhase.left]
      · rw [phase_put]
        simp [PoolPhase.left]
  | readingReply slot borrowed high low arrived =>
      simp only
      rw [phase_put]
      simp [PoolPhase.left]
  | closing slot borrowed outcome =>
      simp only
      rw [phase_put]
      simp [PoolPhase.left]
  | returning slot borrowed outcome reply =>
      simp only
      rw [phase_put]
      simp [PoolPhase.left]

/-- A worker moves only itself. -/
theorem phase_advance_ne
    {worker other : W} (different : other ≠ worker) (answer : PoolAnswer) :
    (s.advance ip worker answer).phase other = s.phase other := by
  have elsewhere :
      ∀ next, Function.update s.phase worker next other = s.phase other :=
    fun next => Function.update_of_ne different next s.phase
  rw [advance]
  cases s.phase worker with
  | idle => rfl
  | checking =>
      simp only
      split
      · exact elsewhere _
      · exact elsewhere _
  | locking =>
      simp only
      split
      · exact elsewhere _
      · rfl
  | testing =>
      simp only
      split
      · exact elsewhere _
      · split
        · exact elsewhere _
        · exact elsewhere _
  | trying slot =>
      simp only
      split
      · exact elsewhere _
      · exact elsewhere _
  | examining slot =>
      simp only
      split
      · exact elsewhere _
      · exact elsewhere _
  | reconnecting slot =>
      simp only
      split
      · exact elsewhere _
      · exact elsewhere _
  | sendingLength slot borrowed =>
      simp only
      split
      · exact elsewhere _
      · exact elsewhere _
  | sendingQuery slot borrowed =>
      simp only
      split
      · exact elsewhere _
      · exact elsewhere _
  | readingLength slot borrowed =>
      simp only
      split
      · exact elsewhere _
      · exact elsewhere _
  | _ => exact elsewhere _

end PoolSystem

/-- The step is one of the worker's own. -/
def PoolStep.isBy {W : Type} [DecidableEq W] (worker : W) :
    PoolStep W → Bool
  | .query _ => false
  | .advance other _ => other = worker

namespace PoolSystem

variable {W : Type} [DecidableEq W] {ip : Bytes} {s : PoolSystem W}

/-- A worker with a query stays where it is in the steps of the others. -/
theorem phase_step_ne
    {worker : W} (busy : s.phase worker ≠ .idle) {action : PoolStep W}
    (foreign : action.isBy worker ≠ true) :
    (s.step ip action).phase worker = s.phase worker := by
  cases action with
  | query other =>
      rw [step]
      split
      · rename_i isIdle
        have different : worker ≠ other := by
          rintro rfl
          exact busy isIdle
        exact Function.update_of_ne different _ _
      · rfl
  | advance other answer =>
      have different : worker ≠ other := by
        intro same
        exact foreign (decide_eq_true same.symm)
      exact phase_advance_ne different answer

theorem left_step_le
    {worker : W} (behind : 0 < (s.phase worker).left)
    (action : PoolStep W) :
    ((s.step ip action).phase worker).left +
        (if action.isBy worker = true then 1 else 0) ≤
      (s.phase worker).left := by
  by_cases own : action.isBy worker = true
  · rw [if_pos own]
    cases action with
    | query other => cases own
    | advance other answer =>
        have same : other = worker := of_decide_eq_true own
        rw [same]
        exact left_advance_lt behind answer
  · have busy : s.phase worker ≠ .idle := by
      intro isIdle
      rw [isIdle] at behind
      cases behind
    rw [if_neg own, phase_step_ne busy own]
    exact le_rfl

/-- Enough steps of its own take a worker from behind its mutex, whatever the
others do in between. -/
theorem exists_left_eq_zero
    (worker : W) {actions : List (PoolStep W)}
    (enough :
      (s.phase worker).left ≤ actions.countP (PoolStep.isBy worker)) :
    ∃ before after, actions = before ++ after ∧
      ((run (step ip) s before).phase worker).left = 0 := by
  apply
    @exists_wanted _ _ (step ip) (fun s => (s.phase worker).left = 0)
      (fun _ => True) (fun s => (s.phase worker).left)
      (PoolStep.isBy worker)
  · intro s _ behind
    exact Nat.pos_of_ne_zero behind
  · intro s action _ behind
    exact
      Or.inr ⟨trivial, left_step_le (Nat.pos_of_ne_zero behind) action⟩
  · trivial
  · exact enough

/-! ## A slot that is left to a worker -/

/-- The worker has a connection and is about to send. -/
def HasConnection (worker : W) (s : PoolSystem W) : Prop :=
  ∃ slot borrowed, s.phase worker = .sendingLength slot borrowed

/-- The slot has a socket, and no other worker has the slot. -/
def LeftTo (worker : W) (target : Fin tcpPoolSize) (s : PoolSystem W) :
    Prop :=
  (s.slots target).conn.sock.isSome = true ∧
    ∀ other, (s.phase other).slot = some target → other = worker

end PoolSystem

/-- How far the loop has to go from a slot. -/
def slotDistance (slot target : Fin tcpPoolSize) : Nat :=
  (tcpPoolSize + target.val - slot.val) % tcpPoolSize

theorem slotDistance_lt (slot target : Fin tcpPoolSize) :
    slotDistance slot target < 4 :=
  Nat.mod_lt _ (by decide)

theorem slotDistance_nextSlot :
    ∀ {slot target : Fin tcpPoolSize}, slot ≠ target →
      slotDistance (nextSlot slot) target + 1 = slotDistance slot target := by
  decide

/-- How many steps at most bring a worker that goes round the slots to a
connection, if the target is left to it.  Such a worker has no need to
reconnect the target. -/
def PoolPhase.away (target : Fin tcpPoolSize) : PoolPhase → Option Nat
  | .trying slot => some (4 * slotDistance slot target + 2)
  | .examining slot => some (4 * slotDistance slot target + 1)
  | .reconnecting slot =>
      if slot = target then none else some (4 * slotDistance slot target)
  | .releasing slot =>
      if slot = target then none
      else some (4 * slotDistance slot target - 1)
  | _ => none

theorem PoolPhase.away_pos
    {target : Fin tcpPoolSize} {phase : PoolPhase} {count : Nat}
    (away : phase.away target = some count) : 0 < count := by
  cases phase with
  | trying slot =>
      rw [PoolPhase.away, Option.some.injEq] at away
      omega
  | examining slot =>
      rw [PoolPhase.away, Option.some.injEq] at away
      omega
  | reconnecting slot =>
      rw [PoolPhase.away] at away
      split at away
      · cases away
      · rename_i different
        have next := slotDistance_nextSlot different
        rw [Option.some.injEq] at away
        omega
  | releasing slot =>
      rw [PoolPhase.away] at away
      split at away
      · cases away
      · rename_i different
        have next := slotDistance_nextSlot different
        rw [Option.some.injEq] at away
        omega
  | _ => cases away

namespace PoolSystem

variable {W : Type} [DecidableEq W] {ip : Bytes} {s : PoolSystem W}

omit [DecidableEq W] in
/-- A slot that is left to a worker without a slot is free. -/
theorem LeftTo.lock_eq_none
    {worker : W} {target : Fin tcpPoolSize} (left : s.LeftTo worker target)
    (sound : s.Sound ip) (without : (s.phase worker).slot = none) :
    (s.slots target).lock = none := by
  cases held : (s.slots target).lock with
  | none => rfl
  | some other =>
      have has := (sound.slot_held other target).mpr held
      rw [left.2 other has, without] at has
      cases has

/-- A step of the worker brings it nearer to a connection. -/
theorem away_advance
    {worker : W} {target : Fin tcpPoolSize} (sound : s.Sound ip)
    (left : s.LeftTo worker target) {count : Nat}
    (away : (s.phase worker).away target = some count)
    (answer : PoolAnswer) :
    HasConnection worker (s.advance ip worker answer) ∨
      ∃ fewer,
        ((s.advance ip worker answer).phase worker).away target =
            some fewer ∧
          fewer < count := by
  rw [advance]
  cases at_ : s.phase worker with
  | trying slot =>
      rw [at_, PoolPhase.away, Option.some.injEq] at away
      simp only
      right
      by_cases unlocked : (s.slots slot).lock = none
      · rw [if_pos unlocked, phase_put, PoolPhase.away]
        exact ⟨_, rfl, by omega⟩
      · have different : slot ≠ target := by
          intro same
          have without : (s.phase worker).slot = none := by
            rw [at_]
            rfl
          rw [same] at unlocked
          exact unlocked (left.lock_eq_none sound without)
        have next := slotDistance_nextSlot different
        rw [if_neg unlocked, phase_goto, PoolPhase.away]
        exact ⟨_, rfl, by omega⟩
  | examining slot =>
      rw [at_, PoolPhase.away, Option.some.injEq] at away
      simp only
      by_cases connected : (s.slots slot).conn.sock.isSome = true
      · rw [if_pos connected]
        exact Or.inl ⟨slot, _, phase_put s worker _ slot _ _⟩
      · have different : slot ≠ target := by
          intro same
          rw [same] at connected
          exact connected left.1
        right
        rw [if_neg connected, phase_goto, PoolPhase.away, if_neg different]
        exact ⟨_, rfl, by omega⟩
  | reconnecting slot =>
      rw [at_, PoolPhase.away] at away
      split at away
      · cases away
      · rename_i different
        rw [Option.some.injEq] at away
        have next := slotDistance_nextSlot different
        simp only
        split
        · exact Or.inl ⟨slot, _, phase_put s worker _ slot _ _⟩
        · right
          rw [phase_goto, PoolPhase.away, if_neg different]
          exact ⟨_, rfl, by omega⟩
  | releasing slot =>
      rw [at_, PoolPhase.away] at away
      split at away
      · cases away
      · rename_i different
        rw [Option.some.injEq] at away
        have next := slotDistance_nextSlot different
        right
        simp only
        rw [phase_put, PoolPhase.away]
        exact ⟨_, rfl, by omega⟩
  | _ =>
      rw [at_] at away
      cases away

/-- Every step brings the worker to a connection or keeps it on its way. -/
theorem away_step
    {worker : W} {target : Fin tcpPoolSize} (sound : s.Sound ip)
    (left : s.LeftTo worker target) {count : Nat}
    (away : (s.phase worker).away target = some count)
    (action : PoolStep W) :
    HasConnection worker (s.step ip action) ∨
      ∃ fewer,
        ((s.step ip action).phase worker).away target = some fewer ∧
          fewer + (if action.isBy worker = true then 1 else 0) ≤ count := by
  by_cases own : action.isBy worker = true
  · rw [if_pos own]
    cases action with
    | query other => cases own
    | advance other answer =>
        have same : other = worker := of_decide_eq_true own
        rw [same]
        exact away_advance sound left away answer
  · have busy : s.phase worker ≠ .idle := by
      intro isIdle
      rw [isIdle] at away
      cases away
    rw [if_neg own, phase_step_ne busy own]
    exact Or.inr ⟨count, away, le_rfl⟩

/-- Enough steps of its own bring a worker to a connection, unless the target
is taken from it before. -/
theorem exists_connection
    {worker : W} {target : Fin tcpPoolSize} (sound : s.Sound ip)
    {count : Nat} (away : (s.phase worker).away target = some count)
    {actions : List (PoolStep W)}
    (enough : count ≤ actions.countP (PoolStep.isBy worker)) :
    ∃ before after, actions = before ++ after ∧
      (HasConnection worker (run (step ip) s before) ∨
        ¬ LeftTo worker target (run (step ip) s before)) := by
  apply
    @exists_wanted _ _ (step ip)
      (fun s => HasConnection worker s ∨ ¬ LeftTo worker target s)
      (fun s =>
        s.Sound ip ∧ ∃ count, (s.phase worker).away target = some count)
      (fun s => ((s.phase worker).away target).getD 0)
      (PoolStep.isBy worker)
  · rintro s ⟨_, count, away⟩ _
    rw [away]
    exact PoolPhase.away_pos away
  · rintro s action ⟨sound, count, away⟩ notYet
    rw [not_or, not_not] at notYet
    rcases away_step sound notYet.2 away action with
      has | ⟨fewer, still, lower⟩
    · exact Or.inl (Or.inl has)
    · refine Or.inr ⟨⟨sound_step sound action, fewer, still⟩, ?_⟩
      rw [still, away]
      exact lower
  · exact ⟨sound, count, away⟩
  · rw [away]
    exact enough

end PoolSystem

/-! ## The pool as a whole -/

section Whole

variable {W : Type} [DecidableEq W]

/-- The workers with the address in `DNS_FORWARDER`, from the start of the
program on. -/
def poolSystemRun (ip : Bytes) (actions : List (PoolStep W)) :
    PoolSystem W :=
  run (PoolSystem.step ip) (poolSystemStart W) actions

theorem sound_poolSystemRun (ip : Bytes) (actions : List (PoolStep W)) :
    (poolSystemRun ip actions).Sound ip :=
  @invariant_run _ _ (PoolSystem.step ip) (fun _ _ => True)
    (PoolSystem.Sound ip)
    (fun _ action sound _ => PoolSystem.sound_step sound action) actions _
    PoolSystem.sound_start (fun _ _ _ _ => trivial)

/-- In every order of steps at most one worker is behind each mutex, no mutex
of a slot is initialised while it is held, and the uses of a connection are
whole exchanges one after another: each finds the connection as the one before
on its slot has left it, or a new one in place of a closed one. -/
theorem poolSystemRun_serial (ip : Bytes) (actions : List (PoolStep W)) :
    let s := poolSystemRun ip actions
    (∀ first second slot, (s.phase first).slot = some slot →
        (s.phase second).slot = some slot → first = second) ∧
      (∀ first second, (s.phase first).inside = true →
        (s.phase second).inside = true → first = second) ∧
      (∀ worker slot, (s.phase worker).opens = true →
        (s.slots slot).lock = none) ∧
      Serial s.log ∧
      (∀ slot, (∀ worker, (s.phase worker).slot ≠ some slot) →
        (s.slots slot).lock = none ∧ (s.slots slot).inUse = false ∧
          (s.slots slot).conn = latest slot s.log) := by
  intro s
  have sound : s.Sound ip := sound_poolSystemRun ip actions
  refine ⟨?_, ?_, ?_, sound.serial, ?_⟩
  · intro first second slot isFirst isSecond
    have lock := (sound.slot_held first slot).mp isFirst
    rw [(sound.slot_held second slot).mp isSecond] at lock
    exact (Option.some.inj lock).symm
  · intro first second isFirst isSecond
    have lock := (sound.pool_held first).mp isFirst
    rw [(sound.pool_held second).mp isSecond] at lock
    exact (Option.some.inj lock).symm
  · intro worker slot opens
    exact sound.lock_eq_none opens slot
  · intro slot nobody
    have unlocked : (s.slots slot).lock = none := by
      cases held : (s.slots slot).lock with
      | none => rfl
      | some worker =>
          exact
            absurd ((sound.slot_held worker slot).mpr held) (nobody worker)
    exact ⟨unlocked, sound.free slot unlocked⟩

/-- Whatever the other workers do in between, seven steps of its own take a
worker from behind the mutex that it holds, and by fourteen steps of its own a
worker that goes round the slots has had a connection, unless each slot has
been held by another one or closed at some moment until then. -/
theorem poolSystemRun_progress (ip : Bytes) (actions : List (PoolStep W)) :
    let s := poolSystemRun ip actions
    (∀ worker more, 7 ≤ List.countP (PoolStep.isBy worker) more →
        ∃ before after, more = before ++ after ∧
          ((run (PoolSystem.step ip) s before).phase worker).inside =
              false ∧
            ((run (PoolSystem.step ip) s before).phase worker).slot =
              none) ∧
      ∀ worker slot more, s.phase worker = .trying slot →
        14 ≤ List.countP (PoolStep.isBy worker) more →
          ∀ target, ∃ before after, more = before ++ after ∧
            (PoolSystem.HasConnection worker
                (run (PoolSystem.step ip) s before) ∨
              ¬ PoolSystem.LeftTo worker target
                (run (PoolSystem.step ip) s before)) := by
  intro s
  refine ⟨?_, ?_⟩
  · intro worker more enough
    have few := PoolPhase.left_le (s.phase worker)
    obtain ⟨before, after, shape, outside⟩ :=
      @PoolSystem.exists_left_eq_zero _ _ ip s worker more
        (le_trans few enough)
    exact
      ⟨before, after, shape, (PoolPhase.left_eq_zero_iff _).mp outside⟩
  · intro worker slot more at_ enough target
    have away :
        (s.phase worker).away target =
          some (4 * slotDistance slot target + 2) := by
      rw [at_]
      rfl
    have near := slotDistance_lt slot target
    exact
      PoolSystem.exists_connection (sound_poolSystemRun ip actions) away
        (by omega)

end Whole

end DnsFirewall
