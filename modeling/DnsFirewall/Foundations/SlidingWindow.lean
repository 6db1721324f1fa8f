import Mathlib.Data.List.Dedup
import Mathlib.Data.List.Perm.Basic

/-!
# Sliding windows

Reports name an item under a key at a time.  An item is live while its latest
report is younger than the window.  A store that keeps the latest time of each
item, and forgets no item while it is live, knows exactly the live items.
-/

namespace DnsFirewall.SlidingWindow

structure Report (κ α : Type) where
  key : κ
  item : α
  time : Int
deriving DecidableEq

variable {κ α : Type} [DecidableEq κ] [DecidableEq α]

/-- The time of the latest report, where the latest is the first. -/
def latest (reports : List (Report κ α)) (key : κ) (item : α) :
    Option Int :=
  (reports.find? fun report =>
    report.key = key ∧ report.item = item).map Report.time

def live (window now : Int) (seen : Option Int) : Bool :=
  seen.any fun time => now - time < window

/-- The items of the key whose latest report is live, each of them once. -/
def liveItems (window : Int) (reports : List (Report κ α)) (key : κ)
    (now : Int) : List α :=
  (((reports.filter fun report => report.key = key).map
      Report.item).dedup).filter fun item =>
    live window now (latest reports key item)

theorem live_eq_true_iff {window now : Int} {seen : Option Int} :
    live window now seen = true ↔
      ∃ time, seen = some time ∧ now - time < window := by
  cases seen with
  | none => simp [live]
  | some time => simp [live]

theorem latest_cons_self (key : κ) (item : α) (now : Int)
    (reports : List (Report κ α)) :
    latest (⟨key, item, now⟩ :: reports) key item = some now := by
  rw [latest, List.find?_cons_of_pos (by simp)]
  rfl

theorem latest_cons_of_ne
    {report : Report κ α} {key : κ} {item : α}
    (different : ¬ (report.key = key ∧ report.item = item))
    (reports : List (Report κ α)) :
    latest (report :: reports) key item = latest reports key item := by
  rw [latest, List.find?_cons_of_neg (by simpa using different), latest]

theorem exists_of_latest
    {reports : List (Report κ α)} {key : κ} {item : α} {time : Int}
    (seen : latest reports key item = some time) :
    ⟨key, item, time⟩ ∈ reports := by
  obtain ⟨report, found, rfl⟩ := Option.map_eq_some_iff.mp seen
  have same := List.find?_some found
  have member := List.mem_of_find?_eq_some found
  simp only [decide_eq_true_eq] at same
  obtain ⟨rfl, rfl⟩ := same
  exact member

theorem mem_liveItems_iff
    {window now : Int} {reports : List (Report κ α)} {key : κ} {item : α} :
    item ∈ liveItems window reports key now ↔
      ∃ time, latest reports key item = some time ∧
        now - time < window := by
  rw [liveItems, List.mem_filter, List.mem_dedup, live_eq_true_iff]
  constructor
  · exact And.right
  · intro isLive
    obtain ⟨time, seen, young⟩ := isLive
    have member := exists_of_latest seen
    have ofKey :
        ⟨key, item, time⟩ ∈
          reports.filter fun report => report.key = key :=
      List.mem_filter.mpr ⟨member, by simp⟩
    exact
      ⟨List.mem_map.mpr ⟨_, ofKey, rfl⟩, ⟨time, seen, young⟩⟩

theorem nodup_liveItems
    (window now : Int) (reports : List (Report κ α)) (key : κ) :
    (liveItems window reports key now).Nodup :=
  (List.nodup_dedup _).filter _

/-- A list that has each live item once has as many as there are. -/
theorem length_liveItems
    {window now : Int} {reports : List (Report κ α)} {key : κ}
    {items : List α} (distinct : items.Nodup)
    (isLive :
      ∀ item, item ∈ items ↔
        ∃ time, latest reports key item = some time ∧
          now - time < window) :
    (liveItems window reports key now).length = items.length := by
  apply List.Perm.length_eq
  apply
    (List.perm_ext_iff_of_nodup
      (nodup_liveItems window now reports key) distinct).mpr
  intro item
  rw [mem_liveItems_iff, isLive]

/-! ## Other keys -/

theorem latest_filter (reports : List (Report κ α)) (key : κ) (item : α) :
    latest (reports.filter fun report => report.key = key) key item =
      latest reports key item := by
  induction reports with
  | nil => rfl
  | cons report rest inductionHypothesis =>
      by_cases ofKey : report.key = key
      · rw [List.filter_cons_of_pos (by simpa using ofKey)]
        by_cases same : report.item = item
        · obtain ⟨_, _, time⟩ := report
          subst ofKey same
          rw [latest_cons_self, latest_cons_self]
        · have different : ¬ (report.key = key ∧ report.item = item) :=
            fun both => same both.2
          rw [latest_cons_of_ne different, latest_cons_of_ne different,
            inductionHypothesis]
      · rw [List.filter_cons_of_neg (by simpa using ofKey),
          inductionHypothesis,
          latest_cons_of_ne fun both => ofKey both.1]

/-- The reports under other keys do not count. -/
theorem liveItems_filter
    (window : Int) (reports : List (Report κ α)) (key : κ) (now : Int) :
    liveItems window (reports.filter fun report => report.key = key) key
        now =
      liveItems window reports key now := by
  have again :
      (reports.filter fun report => report.key = key).filter
          (fun report => report.key = key) =
        reports.filter fun report => report.key = key := by
    rw [List.filter_filter]
    congr 1
    funext report
    exact Bool.and_self _
  rw [liveItems, again, liveItems]
  congr 1
  funext item
  rw [latest_filter]

/-! ## Stores -/

/-- The store has only latest times, and those of all the live items. -/
structure Tracks (window : Int) (stored : κ → α → Int → Prop)
    (reports : List (Report κ α)) (now : Int) : Prop where
  isLatest :
    ∀ {key item time}, stored key item time →
      latest reports key item = some time
  keeps :
    ∀ {key item time}, latest reports key item = some time →
      now - time < window → stored key item time

variable {window : Int} {stored : κ → α → Int → Prop}
  {reports : List (Report κ α)}

theorem Tracks.later
    {before now : Int} (tracks : Tracks window stored reports before)
    (ordered : before ≤ now) : Tracks window stored reports now where
  isLatest := tracks.isLatest
  keeps seen young := tracks.keeps seen (by omega)

/-- Items that are not live may be forgotten. -/
theorem Tracks.forget
    {now : Int} (tracks : Tracks window stored reports now)
    {kept : κ → α → Int → Prop}
    (old : ∀ {key item time}, kept key item time → stored key item time)
    (young :
      ∀ {key item time}, stored key item time → now - time < window →
        kept key item time) :
    Tracks window kept reports now where
  isLatest isKept := tracks.isLatest (old isKept)
  keeps seen isYoung := young (tracks.keeps seen isYoung) isYoung

/-- The reported item is stored with the time of the report, and the others as
they were. -/
theorem Tracks.report
    {now : Int} (tracks : Tracks window stored reports now)
    {key : κ} {item : α} {next : κ → α → Int → Prop}
    (touched :
      ∀ {key' item' time}, next key' item' time ↔
        (key' = key ∧ item' = item ∧ time = now) ∨
          ¬ (key' = key ∧ item' = item) ∧ stored key' item' time) :
    Tracks window next (⟨key, item, now⟩ :: reports) now where
  isLatest isNext := by
    rcases touched.mp isNext with ⟨rfl, rfl, rfl⟩ | ⟨different, isStored⟩
    · exact latest_cons_self _ _ _ _
    · rw [latest_cons_of_ne
        fun both => different ⟨both.1.symm, both.2.symm⟩]
      exact tracks.isLatest isStored
  keeps {key' item' time} seen young := by
    apply touched.mpr
    by_cases same : key' = key ∧ item' = item
    · obtain ⟨rfl, rfl⟩ := same
      rw [latest_cons_self] at seen
      exact Or.inl ⟨rfl, rfl, (Option.some.inj seen).symm⟩
    · rw [latest_cons_of_ne
        fun both => same ⟨both.1.symm, both.2.symm⟩] at seen
      exact Or.inr ⟨same, tracks.keeps seen young⟩

end DnsFirewall.SlidingWindow
