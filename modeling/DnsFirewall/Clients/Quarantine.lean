import Mathlib.Data.List.Basic
import Mathlib.Data.UInt

/-!
# Quarantine

The part of `active_defense.c` that queries are checked against: the list of
banned clients and the blocks reported against each of them, newest first.
Allocation is taken to succeed.
-/

namespace DnsFirewall

def quarantineMaxEvents : Nat := 5
def quarantineWindowSec : Int := 60

structure QuarantineEntry where
  ip : UInt32
  bannedUntil : Int
deriving DecidableEq, Repr

structure BlockEvent where
  clientIp : UInt32
  timestamp : Int
deriving DecidableEq, Repr

/-- `ad_ctx_t`, as far as queries read it: `quarantined` are the first
`quarantined_cnt` entries of the array. -/
structure ActiveDefense where
  quarantined : List QuarantineEntry
  events : List BlockEvent
deriving DecidableEq, Repr

def adInit : ActiveDefense :=
  ⟨[], []⟩

def adIsQuarantined (ctx : ActiveDefense) (ip : UInt32) (now : Int) :
    Bool :=
  ctx.quarantined.any fun entry =>
    entry.ip = ip && now < entry.bannedUntil

def adReportBlock (ctx : ActiveDefense) (ip : UInt32) (now : Int) :
    ActiveDefense :=
  let events := ⟨ip, now⟩ :: ctx.events
  let count :=
    events.countP fun e =>
      e.clientIp = ip && now - e.timestamp < quarantineWindowSec
  if quarantineMaxEvents ≤ count then
    { events
      quarantined := ctx.quarantined ++ [⟨ip, now + 600⟩] }
  else
    { ctx with events }

/-- The rule for one client, from the times of its blocks with the latest
first: some block was the fifth within a minute, and its ten minutes last. -/
def Banned (blocks : List Int) (now : Int) : Prop :=
  ∃ last earlier,
    last :: earlier <:+ blocks ∧ now < last + 600 ∧
      5 ≤ (last :: earlier).countP fun time => last - time < 60

/-- What is kept of a client, for the times of its blocks. -/
structure Standing (ctx : ActiveDefense) (ip : UInt32)
    (blocks : List Int) : Prop where
  events :
    (ctx.events.filter fun e => e.clientIp = ip).map BlockEvent.timestamp =
      blocks
  bans : ∀ now, adIsQuarantined ctx ip now = true ↔ Banned blocks now

theorem adIsQuarantined_iff
    {ctx : ActiveDefense} {ip : UInt32} {now : Int} :
    adIsQuarantined ctx ip now = true ↔
      ∃ entry, entry ∈ ctx.quarantined ∧ entry.ip = ip ∧
        now < entry.bannedUntil := by
  simp [adIsQuarantined]

/-- A report against one client leaves the standing of every other client as
it was. -/
theorem adIsQuarantined_adReportBlock_other
    (ctx : ActiveDefense) {ip other : UInt32} (now later : Int)
    (different : ip ≠ other) :
    adIsQuarantined (adReportBlock ctx ip now) other later =
      adIsQuarantined ctx other later := by
  unfold adReportBlock
  simp only
  split
  · simp [adIsQuarantined, different]
  · rfl

/-- A report never lifts a ban. -/
theorem adIsQuarantined_adReportBlock
    {ctx : ActiveDefense} {ip : UInt32} {later : Int}
    (banned : adIsQuarantined ctx ip later = true)
    (reported : UInt32) (now : Int) :
    adIsQuarantined (adReportBlock ctx reported now) ip later = true := by
  obtain ⟨entry, member, isClient, lasts⟩ := adIsQuarantined_iff.mp banned
  have kept : entry ∈ (adReportBlock ctx reported now).quarantined := by
    unfold adReportBlock
    simp only
    split
    · exact List.mem_append_left _ member
    · exact member
  exact adIsQuarantined_iff.mpr ⟨entry, kept, isClient, lasts⟩

theorem not_banned_nil (now : Int) : ¬ Banned [] now := by
  intro given
  obtain ⟨last, earlier, suffix, -⟩ := given
  cases List.suffix_nil.mp suffix

theorem banned_cons_iff {last now : Int} {earlier : List Int} :
    Banned (last :: earlier) now ↔
      (now < last + 600 ∧
          5 ≤ (last :: earlier).countP fun time => last - time < 60) ∨
        Banned earlier now := by
  constructor
  · intro given
    obtain ⟨first, others, suffix, lasts, many⟩ := given
    rcases List.suffix_cons_iff.mp suffix with same | inner
    · cases same
      exact Or.inl ⟨lasts, many⟩
    · exact Or.inr ⟨first, others, inner, lasts, many⟩
  · intro given
    rcases given with ⟨lasts, many⟩ | ⟨first, others, suffix, lasts, many⟩
    · exact ⟨last, earlier, List.suffix_refl _, lasts, many⟩
    · exact
        ⟨first, others, suffix.trans (List.suffix_cons _ _), lasts, many⟩

theorem standing_adInit (ip : UInt32) : Standing adInit ip [] where
  events := rfl
  bans now := by
    constructor
    · intro banned
      cases banned
    · exact fun banned => absurd banned (not_banned_nil now)

theorem standing_adReportBlock_other
    {ctx : ActiveDefense} {ip other : UInt32} {blocks : List Int}
    (standing : Standing ctx other blocks) (different : ip ≠ other)
    (now : Int) :
    Standing (adReportBlock ctx ip now) other blocks where
  events := by
    have events : (adReportBlock ctx ip now).events =
        ⟨ip, now⟩ :: ctx.events := by
      unfold adReportBlock
      simp only
      split <;> rfl
    rw [events, List.filter_cons_of_neg (by simpa using different)]
    exact standing.events
  bans later := by
    rw [adIsQuarantined_adReportBlock_other ctx now later different]
    exact standing.bans later

/-- The events that a report counts are the blocks of the client. -/
theorem countP_events
    {ctx : ActiveDefense} {ip : UInt32} {blocks : List Int}
    (standing : Standing ctx ip blocks) (now : Int) :
    (⟨ip, now⟩ :: ctx.events).countP
        (fun e =>
          e.clientIp = ip && now - e.timestamp < quarantineWindowSec) =
      (now :: blocks).countP fun time => now - time < 60 := by
  have times :
      now :: blocks =
        ((⟨ip, now⟩ :: ctx.events).filter fun e => e.clientIp = ip).map
          BlockEvent.timestamp := by
    rw [List.filter_cons_of_pos (by simp), List.map_cons, standing.events]
  rw [times, List.countP_map, List.countP_filter]
  apply List.countP_congr
  intro e _
  rw [Bool.and_comm, Function.comp_apply, quarantineWindowSec]

theorem standing_adReportBlock
    {ctx : ActiveDefense} {ip : UInt32} {blocks : List Int}
    (standing : Standing ctx ip blocks) (now : Int) :
    Standing (adReportBlock ctx ip now) ip (now :: blocks) where
  events := by
    have events : (adReportBlock ctx ip now).events =
        ⟨ip, now⟩ :: ctx.events := by
      unfold adReportBlock
      simp only
      split <;> rfl
    rw [events, List.filter_cons_of_pos (by simp), List.map_cons,
      standing.events]
  bans later := by
    rw [banned_cons_iff, ← standing.bans later, ← countP_events standing]
    unfold adReportBlock
    simp only
    split
    · rename_i many
      rw [adIsQuarantined, List.any_append, Bool.or_eq_true,
        ← adIsQuarantined]
      simp only [List.any_cons, List.any_nil, Bool.or_false, decide_true,
        Bool.true_and, decide_eq_true_eq]
      rw [or_comm]
      exact or_congr (and_iff_left many).symm Iff.rfl
    · rename_i few
      exact ⟨Or.inr, fun either => either.resolve_left fun both =>
        few both.2⟩

end DnsFirewall
