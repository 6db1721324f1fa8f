import DnsFirewall.Clients.Release
import DnsFirewall.Foundations.Totals

/-!
# How often a client is banned at once

A worker checks whether a client is quarantined, decides about its query, and
reports a block against it.  The check and the report are two sections of the
mutex, each behind a reading of the clock, so that other workers come in
between.  A client may then be banned again while it is banned, but by one
worker once.
-/

namespace DnsFirewall

open Runs Totals

/-- Where a worker is with a client: about to check with its reading of the
clock, past the check, and about to report with its reading. -/
inductive GuardPhase where
  | idle
  | checking (ip : UInt32) (now : Int)
  | admitted (ip : UInt32)
  | reporting (ip : UInt32) (now : Int)
deriving DecidableEq, Repr

structure Guard (W : Type) where
  clock : Int
  defense : ActiveDefense
  phase : W → GuardPhase

/-- Time goes by, a query of a client comes to a worker, a worker takes a
step, with its decision where it makes one, and a client is released. -/
inductive GuardAction (W : Type) where
  | tick (seconds : Nat)
  | query (worker : W) (ip : UInt32)
  | check (worker : W)
  | decide (worker : W) (blocked : Bool)
  | report (worker : W)
  | release (ip : UInt32)

namespace Guard

variable {W : Type} [DecidableEq W]

def withPhase (g : Guard W) (worker : W) (phase : GuardPhase) : Guard W :=
  { g with phase := Function.update g.phase worker phase }

def step (g : Guard W) : GuardAction W → Guard W
  | .tick seconds => { g with clock := g.clock + seconds }
  | .query worker ip =>
      match g.phase worker with
      | .idle => g.withPhase worker (.checking ip g.clock)
      | _ => g
  | .check worker =>
      match g.phase worker with
      | .checking ip now =>
          if adIsQuarantined g.defense ip now = true then
            g.withPhase worker .idle
          else g.withPhase worker (.admitted ip)
      | _ => g
  | .decide worker blocked =>
      match g.phase worker with
      | .admitted ip =>
          if blocked = true then
            g.withPhase worker (.reporting ip g.clock)
          else g.withPhase worker .idle
      | _ => g
  | .report worker =>
      match g.phase worker with
      | .reporting ip now =>
          { g.withPhase worker .idle with
            defense := adReportBlock g.defense ip now }
      | _ => g
  | .release ip => { g with defense := adUnquarantine g.defense ip }

end Guard

def guardStart (W : Type) (now : Int) : Guard W where
  clock := now
  defense := adInit
  phase := fun _ => .idle

/-! ## The bans that last -/

/-- The bans of a client that last at a time. -/
def activeBans (ctx : ActiveDefense) (ip : UInt32) (now : Int) : Nat :=
  ctx.quarantined.countP fun entry =>
    entry.ip = ip && now < entry.bannedUntil

theorem activeBans_eq_zero_iff
    (ctx : ActiveDefense) (ip : UInt32) (now : Int) :
    activeBans ctx ip now = 0 ↔ adIsQuarantined ctx ip now = false := by
  rw [activeBans, adIsQuarantined, List.countP_eq_zero,
    List.any_eq_false]

theorem activeBans_mono
    (ctx : ActiveDefense) (ip : UInt32) {now later : Int}
    (order : now ≤ later) :
    activeBans ctx ip later ≤ activeBans ctx ip now := by
  apply List.countP_mono_left
  intro entry _ lasts
  simp only [Bool.and_eq_true, decide_eq_true_eq] at lasts ⊢
  exact ⟨lasts.1, by omega⟩

theorem activeBans_adReportBlock_le
    (ctx : ActiveDefense) (ip : UInt32) (now later : Int) :
    activeBans (adReportBlock ctx ip now) ip later ≤
      activeBans ctx ip later + 1 := by
  rw [adReportBlock]
  split
  · rw [activeBans, activeBans, List.countP_append]
    exact Nat.add_le_add_left List.countP_le_length _
  · exact Nat.le_succ _

theorem activeBans_adReportBlock_other
    (ctx : ActiveDefense) {ip other : UInt32} (different : other ≠ ip)
    (now later : Int) :
    activeBans (adReportBlock ctx ip now) other later =
      activeBans ctx other later := by
  rw [adReportBlock]
  split
  · rw [activeBans, activeBans, List.countP_append]
    simp [Ne.symm different]
  · rfl

theorem activeBans_adUnquarantine_le
    (ctx : ActiveDefense) (ip released : UInt32) (now : Int) :
    activeBans (adUnquarantine ctx released) ip now ≤
      activeBans ctx ip now := by
  have permuted := quarantined_adUnquarantine_perm ctx released
  rw [activeBans, permuted.countP_eq]
  exact List.eraseP_sublist.countP_le

/-! ## The invariant -/

/-- The weight of a worker that may still report the client. -/
def GuardPhase.mayReport (ip : UInt32) : GuardPhase → Nat
  | .admitted client => if client = ip then 1 else 0
  | .reporting client _ => if client = ip then 1 else 0
  | _ => 0

theorem GuardPhase.mayReport_le (ip : UInt32) (phase : GuardPhase) :
    phase.mayReport ip ≤ 1 := by
  cases phase <;> simp only [mayReport] <;> first | omega | split <;> omega

namespace Guard

variable {W : Type} [DecidableEq W] [Fintype W] {g : Guard W}

/-- While a client is banned, each of its bans and each worker that may still
report it is another worker's. -/
structure Sound (g : Guard W) : Prop where
  bans : ∀ ip later, g.clock ≤ later →
    activeBans g.defense ip later = 0 ∨
      activeBans g.defense ip later +
          total (GuardPhase.mayReport ip) g.phase ≤
        Fintype.card W
  read : ∀ worker ip now, g.phase worker = .checking ip now →
    now ≤ g.clock

omit [DecidableEq W] in
theorem sound_guardStart (now : Int) : (guardStart W now).Sound where
  bans := fun _ _ _ => Or.inl rfl
  read := fun _ _ _ => nofun

/-- A worker changes its place, and the bans stay. -/
theorem Sound.withPhase
    (sound : g.Sound) {worker : W} {next : GuardPhase}
    (lighter : ∀ ip,
      next.mayReport ip ≤ (g.phase worker).mayReport ip ∨
        ∀ later, g.clock ≤ later → activeBans g.defense ip later = 0)
    (read : ∀ ip now, next = .checking ip now → now ≤ g.clock) :
    (g.withPhase worker next).Sound where
  bans := by
    intro ip later order
    have sum := total_update (GuardPhase.mayReport ip) g.phase worker next
    rcases lighter ip with less | free
    · rcases sound.bans ip later order with none | few
      · exact Or.inl none
      · right
        show activeBans g.defense ip later +
            total _ (Function.update g.phase worker next) ≤ _
        omega
    · exact Or.inl (free later order)
  read := by
    apply
      (Function.forall_update_iff g.phase fun _ phase =>
        ∀ ip now, phase = .checking ip now → now ≤ g.clock).mpr
    exact ⟨read, fun other _ => sound.read other⟩

theorem sound_check (sound : g.Sound) (worker : W) :
    (g.step (.check worker)).Sound := by
  rw [step]
  split
  · rename_i ip now at_
    have read := sound.read worker ip now at_
    split
    · exact sound.withPhase (fun _ => Or.inl (Nat.zero_le _)) nofun
    · rename_i free
      refine sound.withPhase (fun other => ?_) nofun
      by_cases same : ip = other
      · right
        intro later order
        have none :=
          (activeBans_eq_zero_iff g.defense ip now).mpr
            (by simpa using free)
        have fewer :=
          activeBans_mono g.defense ip (le_trans read order)
        rw [← same]
        omega
      · left
        rw [GuardPhase.mayReport, if_neg same]
        exact Nat.zero_le _
  · exact sound

theorem sound_decide (sound : g.Sound) (worker : W) (blocked : Bool) :
    (g.step (.decide worker blocked)).Sound := by
  rw [step]
  split
  · rename_i ip at_
    split
    · refine sound.withPhase (fun other => Or.inl ?_) nofun
      rw [at_]
      exact le_refl _
    · exact sound.withPhase (fun _ => Or.inl (Nat.zero_le _)) nofun
  · exact sound

theorem sound_report (sound : g.Sound) (worker : W) :
    (g.step (.report worker)).Sound := by
  rw [step]
  split
  · rename_i ip now at_
    constructor
    case bans =>
      intro other later order
      have sum :=
        total_update (GuardPhase.mayReport other) g.phase worker .idle
      have before := sound.bans other later order
      rw [at_] at sum
      show activeBans (adReportBlock g.defense ip now) other later = 0 ∨
        activeBans (adReportBlock g.defense ip now) other later +
            total _ (Function.update g.phase worker .idle) ≤ _
      by_cases same : other = ip
      · subst same
        have more := activeBans_adReportBlock_le g.defense other now later
        have card :=
          total_le_card (GuardPhase.mayReport_le other) g.phase
        simp only [GuardPhase.mayReport, if_true] at sum
        right
        omega
      · rw [activeBans_adReportBlock_other g.defense same]
        simp only [GuardPhase.mayReport, if_neg (Ne.symm same)] at sum
        rcases before with none | few
        · exact Or.inl none
        · right
          omega
    case read =>
      apply
        (Function.forall_update_iff g.phase fun _ phase =>
          ∀ ip now, phase = .checking ip now → now ≤ g.clock).mpr
      exact ⟨nofun, fun other _ => sound.read other⟩
  · exact sound

theorem sound_step (sound : g.Sound) (action : GuardAction W) :
    (g.step action).Sound := by
  cases action with
  | tick seconds =>
      have onward : g.clock ≤ g.clock + seconds := by omega
      exact
        ⟨fun ip later order => sound.bans ip later (le_trans onward order),
          fun worker ip now at_ =>
            le_trans (sound.read worker ip now at_) onward⟩
  | query worker ip =>
      rw [step]
      split
      · refine sound.withPhase (fun _ => Or.inl (Nat.zero_le _)) ?_
        intro ip now isChecking
        cases isChecking
        exact le_refl _
      · exact sound
  | check worker => exact sound_check sound worker
  | decide worker blocked => exact sound_decide sound worker blocked
  | report worker => exact sound_report sound worker
  | release ip =>
      refine ⟨fun other later order => ?_, sound.read⟩
      have fewer := activeBans_adUnquarantine_le g.defense other ip later
      rcases sound.bans other later order with none | few
      · left
        show activeBans (adUnquarantine g.defense ip) other later = 0
        omega
      · right
        show activeBans (adUnquarantine g.defense ip) other later + _ ≤ _
        exact le_trans (Nat.add_le_add_right fewer _) few

def guardRun (now : Int) (actions : List (GuardAction W)) : Guard W :=
  run step (guardStart W now) actions

theorem sound_guardRun (now : Int) (actions : List (GuardAction W)) :
    (guardRun now actions).Sound :=
  @invariant_run _ _ step (fun _ _ => True) Sound
    (fun _ action sound _ => sound_step sound action) actions _
    (sound_guardStart now) (fun _ _ _ _ => trivial)

/-! ## As many bans as workers -/

/-- A worker goes from a query of the client to the front of its report. -/
def toReport (ip : UInt32) (worker : W) : List (GuardAction W) :=
  [.query worker ip, .check worker, .decide worker true]

omit [Fintype W] in
theorem run_toReport
    {ip : UInt32} {worker : W} (idle : g.phase worker = .idle)
    (free : adIsQuarantined g.defense ip g.clock = false) :
    run step g (toReport ip worker) =
      g.withPhase worker (.reporting ip g.clock) := by
  simp [toReport, step, idle, withPhase, free]

omit [Fintype W] in
/-- The workers go there one after the other, past the check that bans
nobody. -/
theorem run_flatMap_toReport
    {ip : UInt32} {workers : List W} (nodup : workers.Nodup)
    (idle : ∀ worker ∈ workers, g.phase worker = .idle)
    (free : adIsQuarantined g.defense ip g.clock = false) :
    let after := run step g (workers.flatMap (toReport ip))
    after.defense = g.defense ∧ after.clock = g.clock ∧
      (∀ worker, worker ∉ workers →
        after.phase worker = g.phase worker) ∧
      ∀ worker ∈ workers, after.phase worker = .reporting ip g.clock := by
  induction workers generalizing g with
  | nil => exact ⟨rfl, rfl, fun _ _ => rfl, nofun⟩
  | cons first workers inductionHypothesis =>
      obtain ⟨apart, nodup⟩ := List.nodup_cons.mp nodup
      have next : ∀ worker, worker ≠ first →
          (g.withPhase first (.reporting ip g.clock)).phase worker =
            g.phase worker :=
        fun worker different => Function.update_of_ne different _ _
      have later :=
        @inductionHypothesis (g.withPhase first (.reporting ip g.clock))
          nodup
          (by
            intro worker member
            rw [next worker fun same => apart (same ▸ member)]
            exact idle worker (List.mem_cons_of_mem _ member))
          free
      have front := run_toReport (idle first List.mem_cons_self) free
      intro after
      have shape :
          after =
            run step (g.withPhase first (.reporting ip g.clock))
              (workers.flatMap (toReport ip)) := by
        show run step g
            (toReport ip first ++ workers.flatMap (toReport ip)) = _
        rw [run_append, front]
      rw [← shape] at later
      obtain ⟨defense, clock, others, reporting⟩ := later
      refine ⟨defense, clock, ?_, ?_⟩
      · intro worker outside
        have different : worker ≠ first :=
          fun same => outside (same ▸ List.mem_cons_self)
        rw [others worker fun member =>
          outside (List.mem_cons_of_mem _ member), next worker different]
      · intro worker member
        rcases List.mem_cons.mp member with same | inner
        · rw [same, others first apart]
          exact Function.update_self _ _ _
        · exact reporting worker inner

/-- The blocks of the client within the last minute. -/
def recentBlocks (ctx : ActiveDefense) (ip : UInt32) (now : Int) : Nat :=
  ctx.events.countP fun e =>
    e.clientIp = ip && now - e.timestamp < quarantineWindowSec

theorem recentBlocks_adReportBlock
    (ctx : ActiveDefense) (ip : UInt32) (now : Int) :
    recentBlocks (adReportBlock ctx ip now) ip now =
      recentBlocks ctx ip now + 1 := by
  have events :
      (adReportBlock ctx ip now).events = ⟨ip, now⟩ :: ctx.events := by
    rw [adReportBlock]
    split
    · rfl
    · rfl
  rw [recentBlocks, events, List.countP_cons_of_pos]
  · rfl
  · simp [quarantineWindowSec]

/-- The fifth block in a minute and each one behind it is another ban. -/
theorem activeBans_adReportBlock
    (ctx : ActiveDefense) (ip : UInt32) (now : Int) :
    activeBans (adReportBlock ctx ip now) ip now =
      activeBans ctx ip now +
        if 4 ≤ recentBlocks ctx ip now then 1 else 0 := by
  have count := recentBlocks_adReportBlock ctx ip now
  rw [adReportBlock] at count ⊢
  have events :
      (List.countP (fun e => decide (e.clientIp = ip) &&
          decide (now - e.timestamp < quarantineWindowSec))
        (⟨ip, now⟩ :: ctx.events)) = recentBlocks ctx ip now + 1 := by
    rw [List.countP_cons_of_pos]
    · rfl
    · simp [quarantineWindowSec]
  simp only [events, quarantineMaxEvents]
  by_cases many : 4 ≤ recentBlocks ctx ip now
  · rw [if_pos many, if_pos (Nat.succ_le_succ many), activeBans,
      activeBans, List.countP_append, List.countP_cons_of_pos]
    · rfl
    · simp
  · rw [if_neg many, if_neg fun more => many (Nat.le_of_succ_le_succ more)]
    rfl

omit [Fintype W] in
/-- The workers report one after the other. -/
theorem activeBans_run_reports
    {ip : UInt32} {now : Int} {workers : List W} (nodup : workers.Nodup)
    (reporting : ∀ worker ∈ workers, g.phase worker = .reporting ip now)
    (many : 4 ≤ recentBlocks g.defense ip now) :
    activeBans (run step g (workers.map .report)).defense ip now =
      activeBans g.defense ip now + workers.length := by
  induction workers generalizing g with
  | nil => rfl
  | cons first workers inductionHypothesis =>
      obtain ⟨apart, nodup⟩ := List.nodup_cons.mp nodup
      have front :
          g.step (.report first) =
            { g.withPhase first .idle with
              defense := adReportBlock g.defense ip now } := by
        rw [step, reporting first List.mem_cons_self]
      have later :=
        @inductionHypothesis (g.step (.report first)) nodup
          (by
            intro worker member
            rw [front]
            have different : worker ≠ first :=
              fun same => apart (same ▸ member)
            have same :
                (g.withPhase first .idle).phase worker = g.phase worker :=
              Function.update_of_ne different _ _
            exact
              same.trans
                (reporting worker (List.mem_cons_of_mem _ member)))
          (by
            rw [front]
            show 4 ≤ recentBlocks (adReportBlock g.defense ip now) ip now
            rw [recentBlocks_adReportBlock]
            exact le_trans many (Nat.le_succ _))
      have one := activeBans_adReportBlock g.defense ip now
      rw [if_pos many] at one
      have here :
          activeBans (g.step (.report first)).defense ip now =
            activeBans g.defense ip now + 1 := by
        rw [front]
        exact one
      rw [List.map_cons, run_cons, later, here, List.length_cons]
      omega

omit [Fintype W] in
theorem clock_run_reports (workers : List W) :
    (run step g (workers.map .report)).clock = g.clock := by
  induction workers generalizing g with
  | nil => rfl
  | cons first workers inductionHypothesis =>
      have same : (g.step (.report first)).clock = g.clock := by
        rw [step]
        split
        · rfl
        · rfl
      rw [List.map_cons, run_cons, inductionHypothesis, same]

/-- A worker goes all the way with a query that is blocked. -/
def blockedQuery (ip : UInt32) (worker : W) : List (GuardAction W) :=
  toReport ip worker ++ [.report worker]

omit [Fintype W] in
theorem run_blockedQuery
    {ip : UInt32} {worker : W} (idle : ∀ other, g.phase other = .idle)
    (free : adIsQuarantined g.defense ip g.clock = false) :
    run step g (blockedQuery ip worker) =
      { g with defense := adReportBlock g.defense ip g.clock } := by
  have back :
      Function.update
          (Function.update g.phase worker (.reporting ip g.clock)) worker
          .idle =
        g.phase := by
    rw [Function.update_idem]
    exact Function.update_eq_self_iff.mpr (idle worker).symm
  rw [blockedQuery, run_append, run_toReport (idle worker) free, run_cons,
    run_nil, step]
  simp only [withPhase, Function.update_self, back]

/-- All workers are idle, and the client has been blocked so often. -/
def blockedTimes (W : Type) (ip : UInt32) (now : Int) (count : Nat) :
    Guard W where
  clock := now
  defense := ⟨[], List.replicate count ⟨ip, now⟩⟩
  phase := fun _ => .idle

theorem recentBlocks_replicate (ip : UInt32) (now : Int) (count : Nat) :
    recentBlocks ⟨[], List.replicate count ⟨ip, now⟩⟩ ip now = count := by
  rw [recentBlocks, List.countP_replicate, if_pos]
  simp [quarantineWindowSec]

omit [Fintype W] in
theorem run_blockedTimes
    (ip : UInt32) (now : Int) (worker : W) {count : Nat}
    (few : count < 4) :
    run step (blockedTimes W ip now count) (blockedQuery ip worker) =
      blockedTimes W ip now (count + 1) := by
  rw [run_blockedQuery (fun _ => rfl) rfl, blockedTimes, blockedTimes]
  have recent := recentBlocks_replicate ip now (count + 1)
  rw [List.replicate_succ, recentBlocks] at recent
  simp only [adReportBlock, recent, quarantineMaxEvents,
    List.replicate_succ]
  rw [if_neg (by omega)]

omit [Fintype W] in
/-- Four blocks of the client at one time do not ban it. -/
theorem run_fourBlocks
    (ip : UInt32) (now : Int) (worker : W) {count : Nat}
    (few : count ≤ 4) :
    run step (guardStart W now)
        (List.replicate count (blockedQuery ip worker)).flatten =
      blockedTimes W ip now count := by
  induction count with
  | zero => rfl
  | succ count inductionHypothesis =>
      rw [List.replicate_succ', List.flatten_append, run_append,
        inductionHypothesis (by omega), List.flatten_singleton]
      exact run_blockedTimes ip now worker few

/-- A client has at no time more bans that last than there are workers, and it
may have so many. -/
theorem guardRun_activeBans (ip : UInt32) (now : Int) :
    (∀ (actions : List (GuardAction W)) (later : Int),
      (guardRun now actions).clock ≤ later →
        activeBans (guardRun now actions).defense ip later ≤
          Fintype.card W) ∧
      ∃ actions : List (GuardAction W),
        (guardRun now actions).clock = now ∧
          activeBans (guardRun now actions).defense ip now =
            Fintype.card W := by
  refine ⟨?_, ?_⟩
  · intro actions later order
    rcases (sound_guardRun now actions).bans ip later order with none | few
    · rw [none]
      exact Nat.zero_le _
    · exact le_trans (Nat.le_add_right _ _) few
  · rcases isEmpty_or_nonempty W with isEmpty | ⟨⟨worker⟩⟩
    · refine ⟨[], rfl, ?_⟩
      rw [Fintype.card_eq_zero]
      rfl
    · have nodup := Finset.nodup_toList (Finset.univ : Finset W)
      obtain ⟨defense, clock, -, reporting⟩ :=
        @run_flatMap_toReport W _ (blockedTimes W ip now 4) ip _ nodup
          (fun _ _ => rfl) rfl
      have blocks :
          4 ≤ recentBlocks (blockedTimes W ip now 4).defense ip now :=
        (recentBlocks_replicate ip now 4).ge
      rw [← defense] at blocks
      have bans :
          activeBans
              (run step
                (run step (blockedTimes W ip now 4)
                  (Finset.univ.toList.flatMap (toReport ip)))
                (Finset.univ.toList.map .report)).defense
              ip now = _ :=
        activeBans_run_reports nodup reporting blocks
      refine
        ⟨(List.replicate 4 (blockedQuery ip worker)).flatten ++
          ((Finset.univ : Finset W).toList.flatMap (toReport ip) ++
            (Finset.univ : Finset W).toList.map .report), ?_, ?_⟩
      · rw [guardRun, run_append, run_fourBlocks ip now worker le_rfl,
          run_append, clock_run_reports, clock]
        rfl
      · rw [guardRun, run_append, run_fourBlocks ip now worker le_rfl,
          run_append, bans, defense, Finset.length_toList,
          Finset.card_univ]
        exact Nat.zero_add _

end Guard

end DnsFirewall
