import Mathlib.Data.List.Basic

/-!
# Selections compared

Two searches of one list stop at the same place exactly when the first item on
which the tests disagree stands behind an item that both accept.  Two filters
whose results carry a key of the item give the same list exactly when they
agree on every item.
-/

namespace DnsFirewall.Selection

variable {α β : Type}

/-- Every item on which the tests disagree stands behind an item that both
accept. -/
def Shadowed (first second : α → Bool) (items : List α) : Prop :=
  ∀ before item after,
    items = before ++ item :: after → first item ≠ second item →
      ∃ earlier, earlier ∈ before ∧
        first earlier = true ∧ second earlier = true

theorem shadowed_of_both
    {first second : α → Bool} {head : α}
    (firstHead : first head = true) (secondHead : second head = true)
    (items : List α) :
    Shadowed first second (head :: items) := by
  intro before item after split differ
  cases before with
  | nil =>
      cases split
      exact absurd (firstHead.trans secondHead.symm) differ
  | cons other before =>
      cases split
      exact ⟨head, List.mem_cons_self, firstHead, secondHead⟩

theorem not_shadowed_of_ne
    {first second : α → Bool} {head : α}
    (differ : first head ≠ second head) (items : List α) :
    ¬ Shadowed first second (head :: items) := by
  intro shadowed
  obtain ⟨earlier, member, -⟩ := shadowed [] head items rfl differ
  cases member

theorem shadowed_cons_of_neither
    {first second : α → Bool} {head : α}
    (firstHead : first head = false) (secondHead : second head = false)
    (items : List α) :
    Shadowed first second (head :: items) ↔
      Shadowed first second items := by
  constructor
  · intro shadowed before item after split differ
    obtain ⟨earlier, member, both⟩ :=
      shadowed (head :: before) item after (by rw [split]; rfl) differ
    rcases List.mem_cons.mp member with rfl | later
    · rw [firstHead] at both
      cases both.1
    · exact ⟨earlier, later, both⟩
  · intro shadowed before item after split differ
    cases before with
    | nil =>
        cases split
        exact absurd (firstHead.trans secondHead.symm) differ
    | cons other before =>
        cases split
        obtain ⟨earlier, member, both⟩ := shadowed before item after rfl differ
        exact ⟨earlier, List.mem_cons_of_mem head member, both⟩

theorem find?_eq_find?_iff
    (first second : α → Bool) (items : List α) :
    items.find? first = items.find? second ↔
      Shadowed first second items := by
  induction items with
  | nil =>
      refine iff_of_true rfl ?_
      intro before item after split
      cases before <;> cases split
  | cons head items inductionHypothesis =>
      cases firstHead : first head with
      | true =>
          rw [List.find?_cons_of_pos firstHead]
          cases secondHead : second head with
          | true =>
              rw [List.find?_cons_of_pos secondHead]
              exact
                iff_of_true rfl
                  (shadowed_of_both firstHead secondHead items)
          | false =>
              have differ : first head ≠ second head := by
                rw [firstHead, secondHead]
                decide
              refine iff_of_false ?_ (not_shadowed_of_ne differ items)
              intro found
              have accepted := List.find?_some found.symm
              rw [secondHead] at accepted
              cases accepted
      | false =>
          have firstSkips : ¬ first head = true := by
            rw [firstHead]
            decide
          rw [List.find?_cons_of_neg firstSkips]
          cases secondHead : second head with
          | true =>
              have differ : first head ≠ second head := by
                rw [firstHead, secondHead]
                decide
              rw [List.find?_cons_of_pos secondHead]
              refine iff_of_false ?_ (not_shadowed_of_ne differ items)
              intro found
              have accepted := List.find?_some found
              rw [firstHead] at accepted
              cases accepted
          | false =>
              have secondSkips : ¬ second head = true := by
                rw [secondHead]
                decide
              rw [List.find?_cons_of_neg secondSkips,
                shadowed_cons_of_neither firstHead secondHead]
              exact inductionHypothesis

/-! ## Filters -/

/-- What the second filter yields from any item, the first one yields from
that item as well, if it yields it at all. -/
def Crossed (first second : α → Option β) : Prop :=
  ∀ item other result,
    second item = some result → first other = some result →
      first item = some result

theorem count_filterMap_le
    [BEq β] [LawfulBEq β] {first second : α → Option β} {result : β}
    (follows :
      ∀ item, second item = some result → first item = some result)
    (items : List α) :
    (items.filterMap second).count result ≤
      (items.filterMap first).count result := by
  induction items with
  | nil => exact Nat.le_refl _
  | cons head items inductionHypothesis =>
      cases secondHead : second head with
      | none =>
          rw [List.filterMap_cons_none secondHead]
          refine Nat.le_trans inductionHypothesis ?_
          exact ((List.sublist_cons_self head items).filterMap first).count_le _
      | some found =>
          rw [List.filterMap_cons_some secondHead, List.count_cons]
          by_cases same : found = result
          · subst same
            rw [List.filterMap_cons_some (follows head secondHead),
              List.count_cons]
            exact Nat.add_le_add_right inductionHypothesis _
          · rw [if_neg (by simpa using same), Nat.add_zero]
            refine Nat.le_trans inductionHypothesis ?_
            exact
              ((List.sublist_cons_self head items).filterMap first).count_le _

/-- Crossed filters give the same list only by agreeing on every item. -/
theorem filterMap_eq_filterMap_iff
    [BEq β] [LawfulBEq β] {first second : α → Option β}
    (crossed : Crossed first second) (items : List α) :
    items.filterMap first = items.filterMap second ↔
      ∀ item, item ∈ items → first item = second item := by
  constructor
  · intro same
    induction items with
    | nil =>
        intro item member
        cases member
    | cons head items inductionHypothesis =>
        have agree : first head = second head ∧
            items.filterMap first = items.filterMap second := by
          cases firstHead : first head with
          | none =>
              rw [List.filterMap_cons_none firstHead] at same
              cases secondHead : second head with
              | none =>
                  rw [List.filterMap_cons_none secondHead] at same
                  exact ⟨rfl, same⟩
              | some result =>
                  rw [List.filterMap_cons_some secondHead] at same
                  have member : result ∈ items.filterMap first := by
                    rw [same]
                    exact List.mem_cons_self
                  obtain ⟨other, -, found⟩ := List.mem_filterMap.mp member
                  rw [crossed head other result secondHead found] at firstHead
                  cases firstHead
          | some result =>
              rw [List.filterMap_cons_some firstHead] at same
              cases secondHead : second head with
              | some other =>
                  rw [List.filterMap_cons_some secondHead] at same
                  injection same with heads tails
                  rw [heads]
                  exact ⟨rfl, tails⟩
              | none =>
                  -- the first filter yields the head's result once more
                  rw [List.filterMap_cons_none secondHead] at same
                  have fewer :=
                    count_filterMap_le
                      (fun item found =>
                        crossed item head result found firstHead)
                      items
                  rw [← same, List.count_cons_self] at fewer
                  omega
        intro item member
        rcases List.mem_cons.mp member with rfl | later
        · exact agree.1
        · exact inductionHypothesis agree.2 item later
  · intro agree
    exact List.filterMap_congr agree

end DnsFirewall.Selection
