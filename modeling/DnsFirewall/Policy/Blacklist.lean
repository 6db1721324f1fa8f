import DnsFirewall.Foundations.ChainedTable
import DnsFirewall.Foundations.CString

/-!
# The static blacklist

The chained table of `policy.c` and its check.  An entry is found by its name
with ASCII letters in lower case, which is also what is hashed, so the table
is the set of the added names without case and without a final dot.
Allocation is taken to succeed.
-/

namespace DnsFirewall

open CString

def blacklistBuckets : Nat := 1024

/-- `blacklist_t`. -/
structure Blacklist where
  buckets : Fin blacklistBuckets → List Bytes

def blacklistEmpty : Blacklist :=
  ⟨fun _ => []⟩

/-- `normalise_domain`: one final dot is removed. -/
def normaliseDomain (domain : Bytes) : Bytes :=
  if domain.getLast? = some 46 then domain.dropLast else domain

/-- A name as `strcasecmp` compares it. -/
def foldedName (domain : Bytes) : Bytes :=
  domain.map toLower

/-- `hash_domain`, of a name in lower case. -/
def hashDomain (folded : Bytes) : Fin blacklistBuckets :=
  Fin.ofNat 1024 (djb2 folded).toNat

/-- The entry the chain loops of `blacklist_contains` and `blacklist_add` stop
at. -/
def blacklistFind (bl : Blacklist) (domain : Bytes) : Option Bytes :=
  ChainedTable.find foldedName hashDomain bl.buckets (foldedName domain)

def blacklistContains (bl : Blacklist) (domain : Bytes) : Bool :=
  (blacklistFind bl domain).isSome

/-- The copy that `blacklist_add` and the checks work on. -/
def domainBuffer (domain : Bytes) : Bytes :=
  normaliseDomain (boundedCopy 256 (content domain))

def blacklistAdd (bl : Blacklist) (domain : Bytes) : Blacklist :=
  let buf := domainBuffer domain
  match blacklistFind bl buf with
  | some _ => bl
  | none => ⟨ChainedTable.put foldedName hashDomain bl.buckets buf⟩

/-- The calls of `blacklist_load_file` for the lines it does not skip. -/
def blacklistLoad (lines : List Bytes) : Blacklist :=
  lines.foldl blacklistAdd blacklistEmpty

def policyCheckBlocklist (bl : Blacklist) (domain : Bytes) : Bool :=
  blacklistContains bl (domainBuffer domain)

/-- The two names are equal without case and without a final dot. -/
def SameName (left right : Bytes) : Prop :=
  foldedName (domainBuffer left) = foldedName (domainBuffer right)

def Listed (lines : List Bytes) (domain : Bytes) : Prop :=
  ∃ line, line ∈ lines ∧ SameName line domain

/-! ## The table is the set of its names -/

theorem blacklistContains_congr
    {bl : Blacklist} {left right : Bytes}
    (same : foldedName left = foldedName right) :
    blacklistContains bl left = blacklistContains bl right := by
  unfold blacklistContains blacklistFind
  rw [same]

theorem blacklistContains_empty (domain : Bytes) :
    blacklistContains blacklistEmpty domain = false :=
  rfl

/-- Adding a name adds it and nothing else. -/
theorem blacklistContains_add
    (bl : Blacklist) (added domain : Bytes) :
    blacklistContains (blacklistAdd bl added) domain = true ↔
      blacklistContains bl domain = true ∨
        foldedName (domainBuffer added) = foldedName domain := by
  unfold blacklistAdd
  simp only
  cases found : blacklistFind bl (domainBuffer added) with
  | some entry =>
      constructor
      · exact Or.inl
      · intro given
        rcases given with contained | same
        · exact contained
        · have already :
              blacklistContains bl (domainBuffer added) = true := by
            rw [blacklistContains]
            rw [found]
            rfl
          rw [← blacklistContains_congr same]
          exact already
  | none =>
      by_cases same : foldedName (domainBuffer added) = foldedName domain
      · have inserted :
            blacklistFind
              ⟨ChainedTable.put foldedName hashDomain bl.buckets
                (domainBuffer added)⟩ domain =
              some (domainBuffer added) := by
          rw [blacklistFind]
          rw [← same]
          exact ChainedTable.find_put_self _ _ _ _
        simp only [blacklistContains, inserted, Option.isSome_some, same,
          or_true]
      · have untouched :
            blacklistFind
              ⟨ChainedTable.put foldedName hashDomain bl.buckets
                (domainBuffer added)⟩ domain =
              blacklistFind bl domain :=
          ChainedTable.find_put_other _ _ _ same
        simp only [blacklistContains, untouched, same, or_false]

theorem blacklistContains_foldl
    (domain : Bytes) (lines : List Bytes) (bl : Blacklist) :
    blacklistContains (lines.foldl blacklistAdd bl) domain = true ↔
      blacklistContains bl domain = true ∨
        ∃ line, line ∈ lines ∧
          foldedName (domainBuffer line) = foldedName domain := by
  induction lines generalizing bl with
  | nil => simp
  | cons head tail inductionHypothesis =>
      rw [List.foldl_cons, inductionHypothesis, blacklistContains_add]
      simp only [List.mem_cons, exists_eq_or_imp]
      exact or_assoc

/-- The check finds exactly the names on the loaded list. -/
theorem policyCheckBlocklist_load_iff
    (lines : List Bytes) (domain : Bytes) :
    policyCheckBlocklist (blacklistLoad lines) domain = true ↔
      Listed lines domain := by
  unfold policyCheckBlocklist blacklistLoad Listed SameName
  rw [blacklistContains_foldl, blacklistContains_empty]
  simp

/-! ## Names that fit the buffers -/

/-- The strings are equal after removing at most one final dot from each and
folding the ASCII letters. -/
def EqualName (left right : Bytes) : Prop :=
  foldedName (normaliseDomain left) = foldedName (normaliseDomain right)

instance (left right : Bytes) : Decidable (EqualName left right) :=
  inferInstanceAs (Decidable (_ = _))

/-- The array holds a string of at most 255 bytes. -/
def FitsBuffer (memory : Bytes) : Prop :=
  (content memory).length ≤ 255

instance (memory : Bytes) : Decidable (FitsBuffer memory) :=
  inferInstanceAs (Decidable (_ ≤ _))

theorem domainBuffer_of_fits {memory : Bytes} (fits : FitsBuffer memory) :
    domainBuffer memory = normaliseDomain (content memory) := by
  have whole : boundedCopy 256 (content memory) = content memory :=
    boundedCopy_eq_self (Nat.lt_succ_of_le fits)
  rw [domainBuffer, whole]

theorem sameName_iff_equalName
    {left right : Bytes} (leftFits : FitsBuffer left)
    (rightFits : FitsBuffer right) :
    SameName left right ↔ EqualName (content left) (content right) := by
  rw [SameName, EqualName, domainBuffer_of_fits leftFits,
    domainBuffer_of_fits rightFits]

theorem listed_iff_equalName
    {added : List Bytes} {domain : Bytes}
    (addedFit : ∀ name, name ∈ added → FitsBuffer name)
    (domainFits : FitsBuffer domain) :
    Listed added domain ↔
      ∃ name, name ∈ added ∧
        EqualName (content name) (content domain) := by
  constructor
  · intro listed
    obtain ⟨name, member, same⟩ := listed
    have equal :=
      (sameName_iff_equalName (addedFit name member) domainFits).mp same
    exact ⟨name, member, equal⟩
  · intro found
    obtain ⟨name, member, equal⟩ := found
    have same :=
      (sameName_iff_equalName (addedFit name member) domainFits).mpr equal
    exact ⟨name, member, same⟩

/-- More names, each of them on the list already or not the name asked for,
leave the name as it was. -/
theorem listed_append_iff
    {added more : List Bytes} {domain : Bytes}
    (harmless :
      ∀ name, name ∈ more →
        Listed added name ∨ ¬ SameName name domain) :
    Listed (added ++ more) domain ↔ Listed added domain := by
  constructor
  · intro listed
    obtain ⟨name, member, same⟩ := listed
    rcases List.mem_append.mp member with old | new
    · exact ⟨name, old, same⟩
    · rcases harmless name new with again | other
      · obtain ⟨first, isAdded, equal⟩ := again
        exact ⟨first, isAdded, equal.trans same⟩
      · exact absurd same other
  · intro listed
    obtain ⟨name, member, same⟩ := listed
    exact ⟨name, List.mem_append_left more member, same⟩

/-- The check finds a name exactly when an added string equals it, and names
that are added again, or other names, leave its answer as it was, in whatever
order they are added. -/
theorem policyCheckBlocklist_membership
    (added : List Bytes) (domain : Bytes)
    (addedFit : ∀ name, name ∈ added → FitsBuffer name)
    (domainFits : FitsBuffer domain) :
    (policyCheckBlocklist (added.foldl blacklistAdd blacklistEmpty)
          domain = true ↔
        ∃ name, name ∈ added ∧
          EqualName (content name) (content domain)) ∧
      ∀ more order : List Bytes,
        (∀ name, name ∈ more → FitsBuffer name) →
          (∀ name, name ∈ more →
            (∃ first, first ∈ added ∧
                EqualName (content first) (content name)) ∨
              ¬ EqualName (content name) (content domain)) →
            order.Perm (added ++ more) →
              policyCheckBlocklist
                  (order.foldl blacklistAdd blacklistEmpty) domain =
                policyCheckBlocklist
                  (added.foldl blacklistAdd blacklistEmpty) domain := by
  constructor
  · rw [← listed_iff_equalName addedFit domainFits]
    exact policyCheckBlocklist_load_iff added domain
  · intro more order moreFit harmless rearranged
    have ordered : Listed order domain ↔ Listed (added ++ more) domain := by
      apply exists_congr
      intro name
      rw [rearranged.mem_iff]
    have unchanged : Listed (added ++ more) domain ↔ Listed added domain := by
      apply listed_append_iff
      intro name member
      rcases harmless name member with again | other
      · left
        exact (listed_iff_equalName addedFit (moreFit name member)).mpr again
      · right
        intro same
        exact other
          ((sameName_iff_equalName (moreFit name member) domainFits).mp same)
    apply Bool.eq_iff_iff.mpr
    have before := policyCheckBlocklist_load_iff added domain
    have after := policyCheckBlocklist_load_iff order domain
    exact after.trans (ordered.trans (unchanged.trans before.symm))

/-- The list holds the name in capitals and with a final dot. -/
theorem policyCheckBlocklist_membership_ab :
    (policyCheckBlocklist
          ([[65, 66, 46]].foldl blacklistAdd blacklistEmpty)
          [97, 98] = true ↔
        ∃ name, name ∈ [[65, 66, 46]] ∧
          EqualName (content name) (content [97, 98])) ∧
      policyCheckBlocklist
          ([[99], [97, 66], [65, 66, 46]].foldl blacklistAdd blacklistEmpty)
          [97, 98] =
        policyCheckBlocklist
          ([[65, 66, 46]].foldl blacklistAdd blacklistEmpty) [97, 98] := by
  have membership :=
    policyCheckBlocklist_membership [[65, 66, 46]] [97, 98]
      (by decide) (by decide)
  refine ⟨membership.1, ?_⟩
  exact
    membership.2 [[99], [97, 66]] [[99], [97, 66], [65, 66, 46]]
      (by decide) (by decide) (by decide)

end DnsFirewall
