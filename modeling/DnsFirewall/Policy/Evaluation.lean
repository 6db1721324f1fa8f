import DnsFirewall.Policy.Blacklist
import DnsFirewall.Policy.Score
import DnsFirewall.Wire.LegalName
import Mathlib.Data.List.DropRight

/-!
# The firewall and the evaluation script

`dga_score` in `dga_score.py` scans the first label of a name, while
`dga_score_domain` scans all labels, the dots between them included.  Their
features are the same for a single label and where the whole name is too short
to be scored.
-/

namespace DnsFirewall

open CString

/-- What both programs compute from a name before they weigh it. -/
structure ScoreFeatures where
  length : Nat
  letters : Nat
  digits : Nat
  /-- How often each of the 26 letters occurs. -/
  frequencies : List Nat
  transitions : Nat
  /-- Twice the length score. -/
  lengthClass : Nat
deriving DecidableEq, Repr

def lengthClass (len : Nat) : Nat :=
  if 20 < len then 2 else if 12 < len then 1 else 0

def scoreFeatures (len : Nat) (f : DgaFeatures) : ScoreFeatures where
  length := len
  letters := f.letters
  digits := f.digits
  frequencies := (List.range 26).map fun i => f.counts (97 + i).toUInt8
  transitions := f.transitions
  lengthClass := lengthClass len

/-! ## The firewall -/

/-- The features of `dga_score_domain`; there are none where it returns zero
early. -/
def firewallFeatures (domain : Bytes) : Option ScoreFeatures :=
  if domain.length < 5 then
    none
  else
    let f := dgaFeatures domain
    if f.total < 2 then none else some (scoreFeatures domain.length f)

/-- The weights of `dga_score_domain`. -/
def weighFeatures {F : Type} (model : ScoreModel F) (domain : Bytes)
    (f : ScoreFeatures) : F :=
  let arith := model.arith
  let entropy :=
    if 0 < f.letters then entropyOf arith f.frequencies f.letters
    else arith.decimal 0 0
  let entropyNorm := arith.div entropy (arith.decimal 47 1)
  let digitRatio := arith.div (arith.ofNat f.digits) (arith.ofNat f.length)
  let transitionScore :=
    if 1 < f.length then
      arith.div (arith.ofNat f.transitions) (arith.ofNat (f.length - 1))
    else
      arith.decimal 0 0
  let lenScore :=
    if f.lengthClass = 2 then arith.decimal 1 0
    else if f.lengthClass = 1 then arith.decimal 5 1
    else arith.decimal 0 0
  arith.add (arith.add (arith.add (arith.add (arith.add
    (arith.mul entropyNorm (arith.decimal 20 2))
    (arith.mul digitRatio (arith.decimal 15 2)))
    (arith.mul transitionScore (arith.decimal 15 2)))
    (arith.mul lenScore (arith.decimal 10 2)))
    (arith.mul (ngramScoreDomain model domain) (arith.decimal 25 2)))
    (arith.mul (vowelConsonantScore arith domain) (arith.decimal 15 2))

theorem lengthScore_eq {α : Type} (len : Nat) (long middle short : α) :
    (if lengthClass len = 2 then long
      else if lengthClass len = 1 then middle else short) =
      if 20 < len then long else if 12 < len then middle else short := by
  rw [lengthClass]
  by_cases isLong : 20 < len
  · rw [if_pos isLong, if_pos isLong]
    rfl
  · rw [if_neg isLong, if_neg isLong]
    by_cases isMiddle : 12 < len
    · rw [if_pos isMiddle, if_pos isMiddle]
      rfl
    · rw [if_neg isMiddle, if_neg isMiddle]
      rfl

/-- The score depends on the whole name through the features only. -/
theorem dgaScoreDomain_eq
    {F : Type} (model : ScoreModel F) (domain : Bytes) :
    dgaScoreDomain model domain =
      match firewallFeatures (content domain) with
      | none => model.arith.decimal 0 0
      | some f => weighFeatures model (content domain) f := by
  rw [dgaScoreDomain, firewallFeatures]
  simp only
  by_cases short : (content domain).length < 5
  · rw [if_pos short, if_pos short]
  rw [if_neg short, if_neg short]
  by_cases few : (dgaFeatures (content domain)).total < 2
  · rw [if_pos few, if_pos few]
  rw [if_neg few, if_neg few]
  unfold weighFeatures scoreFeatures
  simp only [lengthScore_eq]

/-! ## The evaluation script -/

/-- The body of the loop in `dga_score`. -/
def scriptStep (f : DgaFeatures) (c : UInt8) : DgaFeatures :=
  if isLowerLetter c then
    { f with
      counts := Function.update f.counts c (f.counts c + 1)
      letters := f.letters + 1
      total := f.total + 1
      transitions :=
        if f.prevType = 2 then f.transitions + 1 else f.transitions
      prevType := 1 }
  else if isDigit c then
    { f with
      digits := f.digits + 1
      total := f.total + 1
      transitions :=
        if f.prevType = 1 then f.transitions + 1 else f.transitions
      prevType := 2 }
  else
    { f with prevType := 0 }

/-- `domain.rstrip('.')`. -/
def rstripDots (domain : Bytes) : Bytes :=
  domain.rdropWhile (· = 46)

/-- The features of `dga_score`; there are none where it returns zero early. -/
def scriptFeatures (domain : Bytes) : Option ScoreFeatures :=
  let sld := (firstLabel (rstripDots domain)).map toLower
  if sld.length < 5 then
    none
  else
    let f := sld.foldl scriptStep ⟨0, 0, fun _ => 0, 0, 0, 0⟩
    if f.total < 2 then none else some (scoreFeatures sld.length f)

/-- The script scores the first label as the firewall scores a name. -/
theorem scriptFeatures_eq (domain : Bytes) :
    scriptFeatures domain =
      firewallFeatures (firstLabel (rstripDots domain)) := by
  rw [scriptFeatures, firewallFeatures, dgaFeatures]
  simp only [List.length_map, List.foldl_map]
  rfl

/-! ## Host names -/

def isHostCharacter (character : UInt8) : Bool :=
  isLowerLetter character || isDigit character || character == 45

/-- A sequence of labels of lower-case letters, digits and hyphens. -/
structure HostName where
  labels : List Bytes
  nonempty : ∀ label, label ∈ labels → label ≠ []
  plain :
    ∀ label, label ∈ labels → ∀ character, character ∈ label →
      isHostCharacter character = true

/-- The name as it is written, with a dot behind every label. -/
def HostName.text (name : HostName) : Bytes :=
  nameText name.labels

/-- The labels with a dot between them. -/
def joined : List Bytes → Bytes
  | [] => []
  | [label] => label
  | label :: next :: rest => label ++ 46 :: joined (next :: rest)

theorem nameText_eq_joined
    {labels : List Bytes} (nonempty : labels ≠ []) :
    nameText labels = joined labels ++ [46] := by
  induction labels with
  | nil => exact absurd rfl nonempty
  | cons label labels inductionHypothesis =>
      cases labels with
      | nil => rfl
      | cons next rest =>
          have tail := inductionHypothesis (List.cons_ne_nil next rest)
          rw [nameText, tail, joined, List.append_assoc]
          rfl

/-- The last character of the joined labels is one of the last label. -/
theorem joined_ends
    {labels : List Bytes} (nonempty : labels ≠ [])
    (plain : ∀ label, label ∈ labels → label ≠ [] ∧ 46 ∉ label) :
    ∃ front last, joined labels = front ++ [last] ∧ last ≠ 46 := by
  induction labels with
  | nil => exact absurd rfl nonempty
  | cons label labels inductionHypothesis =>
      cases labels with
      | nil =>
          obtain ⟨filled, noDot⟩ := plain label List.mem_cons_self
          refine
            ⟨label.dropLast, label.getLast filled,
              (List.dropLast_append_getLast filled).symm, ?_⟩
          intro isDot
          exact noDot (isDot ▸ List.getLast_mem filled)
      | cons next rest =>
          obtain ⟨front, last, ends, notDot⟩ :=
            inductionHypothesis (List.cons_ne_nil next rest)
              fun other member =>
                plain other (List.mem_cons_of_mem _ member)
          refine ⟨label ++ 46 :: front, last, ?_, notDot⟩
          rw [joined, ends, List.append_assoc]
          rfl

theorem normaliseDomain_append_dot (front : Bytes) :
    normaliseDomain (front ++ [46]) = front := by
  rw [normaliseDomain]
  rw [List.getLast?_concat, if_pos rfl, List.dropLast_concat]

theorem rstripDots_joined
    {labels : List Bytes} (nonempty : labels ≠ [])
    (plain : ∀ label, label ∈ labels → label ≠ [] ∧ 46 ∉ label) :
    rstripDots (joined labels ++ [46]) = joined labels := by
  obtain ⟨front, last, ends, notDot⟩ := joined_ends nonempty plain
  rw [rstripDots]
  rw [List.rdropWhile_concat_pos _ _ _ (by simp), ends]
  exact List.rdropWhile_concat_neg _ _ _ (by simpa using notDot)

theorem firstLabel_joined
    {label : Bytes} {rest : List Bytes} (noDot : 46 ∉ label) :
    firstLabel (joined (label :: rest)) = label := by
  have all : ∀ character, character ∈ label → character ≠ 46 := by
    intro character member same
    subst same
    exact noDot member
  have whole : label.takeWhile (· ≠ 46) = label :=
    List.takeWhile_eq_self_iff.mpr (by simpa using all)
  cases rest with
  | nil => exact whole
  | cons next rest =>
      rw [joined]
      rw [firstLabel]
      rw [List.takeWhile_append_of_pos (by simpa using all)]
      simp

/-! ## Where the features agree -/

/-- How many letters and digits a name has. -/
def alnumCount (domain : Bytes) : Nat :=
  domain.countP fun character =>
    isLowerLetter (toLower character) || isDigit (toLower character)

theorem total_dgaFeatures (domain : Bytes) :
    (dgaFeatures domain).total = alnumCount domain := by
  have scan :
      ∀ (rest : Bytes) (f : DgaFeatures),
        (rest.foldl dgaStep f).total = f.total + alnumCount rest := by
    intro rest
    induction rest with
    | nil => exact fun f => rfl
    | cons head tail inductionHypothesis =>
        intro f
        have step :
            (dgaStep f head).total = f.total + alnumCount [head] := by
          rw [dgaStep, alnumCount]
          by_cases letter : isLowerLetter (toLower head) = true
          · simp [letter]
          · by_cases digit : isDigit (toLower head) = true
            · simp [letter, digit]
            · simp [letter, digit]
        have split :
            alnumCount (head :: tail) = alnumCount [head] + alnumCount tail := by
          unfold alnumCount
          rw [← List.countP_append, List.singleton_append]
        rw [List.foldl_cons, inductionHypothesis, step, split, Nat.add_assoc]
  exact (scan domain _).trans (Nat.zero_add _)

theorem firewallFeatures_eq_none_iff {domain : Bytes} :
    firewallFeatures domain = none ↔
      domain.length < 5 ∨ alnumCount domain < 2 := by
  rw [firewallFeatures]
  rw [← total_dgaFeatures]
  by_cases short : domain.length < 5
  · rw [if_pos short]
    exact ⟨fun _ => Or.inl short, fun _ => rfl⟩
  · rw [if_neg short]
    by_cases few : (dgaFeatures domain).total < 2
    · simp only [if_pos few]
      exact ⟨fun _ => Or.inr few, fun _ => trivial⟩
    · simp only [if_neg few]
      constructor
      · intro some
        cases some
      · intro given
        rcases given with isShort | isFew
        · exact absurd isShort short
        · exact absurd isFew few

theorem length_of_firewallFeatures
    {domain : Bytes} {f : ScoreFeatures}
    (scored : firewallFeatures domain = some f) :
    f.length = domain.length := by
  unfold firewallFeatures at scored
  split at scored
  · cases scored
  · simp only at scored
    split at scored
    · cases scored
    · cases scored
      rfl

/-- A name and a longer one behind it have the same features only if neither
is scored. -/
theorem firewallFeatures_longer_iff (label more : Bytes) :
    firewallFeatures (label ++ 46 :: more) = firewallFeatures label ↔
      (label ++ 46 :: more).length < 5 ∨
        alnumCount (label ++ 46 :: more) < 2 := by
  rw [← firewallFeatures_eq_none_iff]
  constructor
  · intro same
    cases scored : firewallFeatures (label ++ 46 :: more) with
    | none => rfl
    | some f =>
        rw [scored] at same
        have length := length_of_firewallFeatures scored
        have alsoLength := length_of_firewallFeatures same.symm
        rw [List.length_append, List.length_cons] at length
        omega
  · intro unscored
    rw [unscored]
    have front : firewallFeatures label = none := by
      rw [firewallFeatures_eq_none_iff] at unscored ⊢
      rcases unscored with short | few
      · left
        rw [List.length_append] at short
        omega
      · right
        rw [alnumCount] at few ⊢
        rw [List.countP_append] at few
        omega
    rw [front]

theorem HostName.labels_plain (name : HostName) :
    ∀ label, label ∈ name.labels → label ≠ [] ∧ 46 ∉ label := by
  intro label member
  refine ⟨name.nonempty label member, ?_⟩
  intro isDot
  exact absurd (name.plain label member 46 isDot) (by decide)

/-- The firewall scores a host name with the script's features exactly when
it has at most one label, or fewer than five characters without the final dot,
or fewer than two letters and digits in all. -/
theorem features_agree_iff (name : HostName) :
    firewallFeatures (normaliseDomain name.text) =
        scriptFeatures name.text ↔
      name.labels.length ≤ 1 ∨ (normaliseDomain name.text).length < 5 ∨
        alnumCount (normaliseDomain name.text) < 2 := by
  have plain := name.labels_plain
  rw [scriptFeatures_eq]
  rw [HostName.text]
  cases shape : name.labels with
  | nil =>
      refine ⟨fun _ => Or.inl (Nat.zero_le 1), fun _ => ?_⟩
      rfl
  | cons label rest =>
      rw [shape] at plain
      have noDot := (plain label List.mem_cons_self).2
      rw [nameText_eq_joined (List.cons_ne_nil label rest),
        normaliseDomain_append_dot,
        rstripDots_joined (List.cons_ne_nil label rest) plain,
        firstLabel_joined noDot]
      cases rest with
      | nil => exact ⟨fun _ => Or.inl (Nat.le_refl 1), fun _ => rfl⟩
      | cons next rest =>
          rw [joined, firewallFeatures_longer_iff]
          constructor
          · exact Or.inr
          · intro given
            rcases given with single | unscored
            · simp at single
            · exact unscored

/-- Both programs would score every host name with the same features. -/
def FeaturesAgree : Prop :=
  ∀ name : HostName,
    firewallFeatures (normaliseDomain name.text) = scriptFeatures name.text

/-- The name `example.org.`. -/
def nameExampleOrg : HostName where
  labels := [[101, 120, 97, 109, 112, 108, 101], [111, 114, 103]]
  nonempty := by decide
  plain := by decide +kernel

theorem not_featuresAgree : ¬ FeaturesAgree := by
  intro agree
  have same := agree nameExampleOrg
  exact absurd same (by decide +kernel)

end DnsFirewall
