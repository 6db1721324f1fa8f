import DnsFirewall.Policy.Checks
import DnsFirewall.Policy.RealScore
import DnsFirewall.Wire.Rebuild

/-!
# The DGA verdict before and after the resolution

The check before the resolution scores a name without its final dot, the one
behind it scores the name as it was parsed.  The dot lengthens the name, which
lowers the shares of the digits and transitions, reaches the minimal length and
raises the length class.
-/

namespace DnsFirewall

open CString Entropy

/-- Both DGA checks give the same verdict on the name, for every table and
threshold. -/
def SameVerdict (qname : Bytes) : Prop :=
  ∀ ctx : PolicyCtx ℝ, ctx.scores.arith = realArithmetic →
    policyCheckPreresolve ctx qname = aboveThreshold ctx.scores qname

/-- No term of the score can be positive: one letter only, up to three times
in the first label, and there not twice unless it is a vowel. -/
def Monotonous (name : Bytes) : Prop :=
  (∀ first, first ∈ lettersOf name →
      ∀ second, second ∈ lettersOf name → first = second) ∧
    (lettersOf (firstLabel name)).length ≤ 3 ∧
      ((lettersOf (firstLabel name)).length < 2 ∨
        ∀ letter, letter ∈ lettersOf (firstLabel name) →
          isVowel letter = true)

/-- The final dot, if there is one, makes no difference to the score. -/
def DotHarmless (name : Bytes) : Prop :=
  name.getLast? ≠ some 46 ∨ name.length ≤ 4 ∨ alnumCount name < 2 ∨
    ((∀ character, character ∈ name → isDigit character = false) ∧
      name.length ≠ 13 ∧ name.length ≠ 21 ∧
        (name.length = 5 → Monotonous name))

/-! ## What the dot changes -/

theorem dgaFeatures_dot (front : Bytes) :
    dgaFeatures (front ++ [46]) =
      { dgaFeatures front with prevType := 0 } := by
  rw [dgaFeatures, List.foldl_concat, ← dgaFeatures, dgaStep]
  rfl

theorem firstLabel_dot (front : Bytes) :
    firstLabel (front ++ [46]) = firstLabel front := by
  rw [firstLabel, List.takeWhile_append]
  split
  · simp only [ne_eq, not_true_eq_false, decide_false, Bool.false_eq_true,
      not_false_eq_true, List.takeWhile_cons_of_neg, List.append_nil]
    rename_i whole
    exact (List.IsPrefix.eq_of_length (List.takeWhile_prefix _) whole).symm
  · rfl

theorem lettersOf_dot (front : Bytes) :
    lettersOf (front ++ [46]) = lettersOf front := by
  rw [lettersOf, List.map_append, List.filter_append]
  exact List.append_nil _

theorem alnumCount_dot (front : Bytes) :
    alnumCount (front ++ [46]) = alnumCount front := by
  rw [alnumCount, List.countP_append]
  rfl

theorem content_dot {front : Bytes}
    (isString : content (front ++ [46]) = front ++ [46]) :
    content front = front := by
  apply content_eq_self
  intro character member
  apply ne_zero_of_mem_content
  rw [isString]
  exact List.mem_append_left [46] member

/-! ## Digits and transitions -/

/-- What the counters of the first loop in `dga_score_domain` keep. -/
structure Counted (f : DgaFeatures) (seen : Bytes) : Prop where
  digits : f.digits = seen.countP isDigit
  transitions : f.transitions ≤ seen.length
  still : f.digits = 0 → f.transitions = 0 ∧ f.prevType ≠ 2

theorem isDigit_eq_true_iff (character : UInt8) :
    isDigit character = true ↔
      48 ≤ character.toNat ∧ character.toNat ≤ 57 := by
  rw [isDigit, Bool.and_eq_true, decide_eq_true_iff, decide_eq_true_iff,
    UInt8.le_iff_toNat_le, UInt8.le_iff_toNat_le]
  rfl

theorem isDigit_of_letter
    {character : UInt8} (letter : isLowerLetter character = true) :
    isDigit character = false := by
  rw [isLowerLetter, Bool.and_eq_true, decide_eq_true_iff,
    decide_eq_true_iff, UInt8.le_iff_toNat_le] at letter
  have first : (97 : UInt8).toNat = 97 := rfl
  rw [Bool.eq_false_iff, Ne, isDigit_eq_true_iff]
  omega

theorem isDigit_toLower (character : UInt8) :
    isDigit (toLower character) = isDigit character := by
  rw [toLower]
  split
  case isTrue upper =>
    have low : 65 ≤ character.toNat := UInt8.le_iff_toNat_le.mp upper.1
    have high : character.toNat ≤ 90 := UInt8.le_iff_toNat_le.mp upper.2
    have shifted : (character + 32).toNat = character.toNat + 32 := by
      rw [UInt8.toNat_add]
      have amount : (32 : UInt8).toNat = 32 := rfl
      omega
    rw [Bool.eq_iff_iff, isDigit_eq_true_iff, isDigit_eq_true_iff]
    omega
  case isFalse => rfl

theorem counted_dgaStep
    {f : DgaFeatures} {seen : Bytes} (counted : Counted f seen)
    (character : UInt8) :
    Counted (dgaStep f character) (seen ++ [character]) := by
  obtain ⟨digits, transitions, still⟩ := counted
  have count := isDigit_toLower character
  rw [dgaStep]
  by_cases letter : isLowerLetter (toLower character) = true
  · have noDigit := isDigit_of_letter letter
    rw [count] at noDigit
    simp only [letter, if_true]
    refine ⟨?_, ?_, ?_⟩
    · simp [digits, noDigit]
    · rw [List.length_append, List.length_singleton]
      split
      · exact Nat.succ_le_succ transitions
      · exact Nat.le_succ_of_le transitions
    · intro none
      obtain ⟨noChange, notBehind⟩ := still none
      exact ⟨by rw [if_neg notBehind, noChange], by simp⟩
  · by_cases digit : isDigit (toLower character) = true
    · simp only [letter, digit, if_true, Bool.false_eq_true, if_false]
      rw [count] at digit
      refine ⟨?_, ?_, ?_⟩
      · simp [digits, digit]
      · rw [List.length_append, List.length_singleton]
        split
        · exact Nat.succ_le_succ transitions
        · exact Nat.le_succ_of_le transitions
      · intro none
        exact absurd none (Nat.succ_ne_zero _)
    · simp only [letter, digit, Bool.false_eq_true, if_false]
      rw [count] at digit
      refine ⟨?_, ?_, ?_⟩
      · simp [digits, digit]
      · rw [List.length_append, List.length_singleton]
        exact Nat.le_succ_of_le transitions
      · intro none
        exact ⟨(still none).1, by simp⟩

theorem counted_foldl
    {f : DgaFeatures} {seen : Bytes} (counted : Counted f seen)
    (rest : Bytes) :
    Counted (rest.foldl dgaStep f) (seen ++ rest) := by
  induction rest generalizing f seen with
  | nil =>
      rw [List.append_nil]
      exact counted
  | cons character rest inductionHypothesis =>
      have next := inductionHypothesis (counted_dgaStep counted character)
      rw [List.append_assoc] at next
      exact next

theorem counted_dgaFeatures (domain : Bytes) :
    Counted (dgaFeatures domain) domain :=
  @counted_foldl _ [] ⟨rfl, Nat.le_refl 0, fun _ => ⟨rfl, by decide⟩⟩ domain

theorem digits_eq_zero_iff (domain : Bytes) :
    (dgaFeatures domain).digits = 0 ↔
      ∀ character, character ∈ domain → isDigit character = false := by
  rw [(counted_dgaFeatures domain).digits, List.countP_eq_zero]
  simp only [Bool.not_eq_true]

/-! ## The two scores -/

theorem ngramScoreDomain_dot {F : Type} (model : ScoreModel F)
    (front : Bytes) :
    ngramScoreDomain model (front ++ [46]) = ngramScoreDomain model front := by
  simp only [ngramScoreDomain, firstLabel_dot]

theorem vowelConsonantScore_dot {F : Type} (arith : Arithmetic F)
    (front : Bytes) :
    vowelConsonantScore arith (front ++ [46]) =
      vowelConsonantScore arith front := by
  simp only [vowelConsonantScore, firstLabel_dot]

theorem frequencies_dot (front : Bytes) :
    frequencies (front ++ [46]) = frequencies front := by
  simp only [frequencies, lettersOf_dot]

theorem dgaScoreDomain_dot
    (table : Option (NgramTable ℝ)) (threshold : ℝ) {front : Bytes}
    (isString : content (front ++ [46]) = front ++ [46])
    (long : 5 ≤ front.length) (enough : 2 ≤ alnumCount front) :
    dgaScoreDomain (realModel table threshold) (front ++ [46]) =
      dgaScoreDomain (realModel table threshold) front +
        dotGain (dgaFeatures front) front.length := by
  have longDot : 5 ≤ (front ++ [46]).length := by
    rw [List.length_append]
    omega
  have enoughDot : 2 ≤ alnumCount (front ++ [46]) := by
    rw [alnumCount_dot]
    exact enough
  have behind : (front ++ [46]).length = front.length + 1 :=
    List.length_append
  rw [dgaScoreDomain_real table threshold isString longDot enoughDot,
    dgaScoreDomain_real table threshold (content_dot isString) long enough,
    lettersOf_dot, frequencies_dot, ngramScoreDomain_dot,
    vowelConsonantScore_dot, dgaFeatures_dot, behind, dotGain,
    Nat.add_sub_cancel]
  ring

theorem lengthScore_succ
    {len : Nat} (notMiddle : len ≠ 12) (notLong : len ≠ 20) :
    lengthScore (len + 1) = lengthScore len := by
  have long : 20 < len + 1 ↔ 20 < len := by omega
  have middle : 12 < len + 1 ↔ 12 < len := by omega
  simp only [lengthScore, long, middle]

theorem div_succ_lt {count len : Nat} (positive : 0 < count)
    (nonempty : 0 < len) :
    (count : ℝ) / (len + 1 : Nat) < count / len := by
  apply div_lt_div_of_pos_left (Nat.cast_pos.mpr positive)
    (Nat.cast_pos.mpr nonempty)
  exact Nat.cast_lt.mpr (Nat.lt_succ_self len)

theorem div_succ_le (count : Nat) {len : Nat} (nonempty : 0 < len) :
    (count : ℝ) / (len + 1 : Nat) ≤ count / len := by
  apply div_le_div_of_nonneg_left (Nat.cast_nonneg count)
    (Nat.cast_pos.mpr nonempty)
  exact Nat.cast_le.mpr (Nat.le_succ len)

/-- Apart from the steps of the length class the dot lowers the score of the
names with a digit, and of no others. -/
theorem dotGain_eq_zero_iff
    {domain : Bytes} (long : 5 ≤ domain.length)
    (notMiddle : domain.length ≠ 12) (notLong : domain.length ≠ 20) :
    dotGain (dgaFeatures domain) domain.length = 0 ↔
      (dgaFeatures domain).digits = 0 := by
  rw [dotGain, lengthScore_succ notMiddle notLong, sub_self, zero_mul,
    add_zero]
  have before : domain.length - 1 + 1 = domain.length := by omega
  have fewer :=
    @div_succ_le (dgaFeatures domain).transitions (domain.length - 1)
      (by omega)
  rw [before] at fewer
  constructor
  · intro zero
    by_contra some
    have less :=
      div_succ_lt (Nat.pos_of_ne_zero some)
        (Nat.lt_of_lt_of_le (by decide : 0 < 5) long)
    linarith
  · intro none
    have still := ((counted_dgaFeatures domain).still none).1
    rw [none, still]
    simp

/-- At a step of the length class the dot raises the score. -/
theorem dotGain_pos
    {domain : Bytes} (step : domain.length = 12 ∨ domain.length = 20) :
    0 < dotGain (dgaFeatures domain) domain.length := by
  have counted := counted_dgaFeatures domain
  have digits : (dgaFeatures domain).digits ≤ domain.length := by
    rw [counted.digits]
    exact List.countP_le_length
  have transitions := counted.transitions
  rw [dotGain]
  rcases step with middle | long
  · rw [middle] at digits transitions ⊢
    have digitsReal : ((dgaFeatures domain).digits : ℝ) ≤ 12 :=
      Nat.cast_le.mpr digits
    have transitionsReal : ((dgaFeatures domain).transitions : ℝ) ≤ 12 :=
      Nat.cast_le.mpr transitions
    norm_num [lengthScore]
    linarith
  · rw [long] at digits transitions ⊢
    have digitsReal : ((dgaFeatures domain).digits : ℝ) ≤ 20 :=
      Nat.cast_le.mpr digits
    have transitionsReal : ((dgaFeatures domain).transitions : ℝ) ≤ 20 :=
      Nat.cast_le.mpr transitions
    norm_num [lengthScore]
    linarith

theorem dgaScoreDomain_unscored
    (table : Option (NgramTable ℝ)) (threshold : ℝ) {domain : Bytes}
    (isString : content domain = domain)
    (unscored : domain.length < 5 ∨ alnumCount domain < 2) :
    dgaScoreDomain (realModel table threshold) domain = 0 := by
  rw [dgaScoreDomain_eq, isString,
    firewallFeatures_eq_none_iff.mpr unscored]
  exact zero_real

/-- A scored name of five characters has the score zero, whatever the table,
when it has no digit and is monotonous. -/
theorem dgaScoreDomain_five_iff
    {domain : Bytes} (isString : content domain = domain)
    (five : domain.length = 5) (enough : 2 ≤ alnumCount domain) :
    (∀ table, dgaScoreDomain (realModel table 0) domain = 0) ↔
      (∀ character, character ∈ domain → isDigit character = false) ∧
        Monotonous domain := by
  have score := fun table =>
    dgaScoreDomain_real table 0 isString five.ge enough
  have noClass : lengthScore domain.length = 0 := by
    rw [five, lengthScore, if_neg (by decide), if_neg (by decide)]
  have entropyTerm := entropy_nonneg one_lt_two (frequencies_le domain)
  have vowelTerm := vowelConsonantScore_nonneg domain
  have digitTerm :
      (0 : ℝ) ≤ ((dgaFeatures domain).digits : ℝ) / domain.length :=
    div_nonneg (Nat.cast_nonneg _) (Nat.cast_nonneg _)
  have transitionTerm :
      (0 : ℝ) ≤ ((dgaFeatures domain).transitions : ℝ) /
        (domain.length - 1 : Nat) :=
    div_nonneg (Nat.cast_nonneg _) (Nat.cast_nonneg _)
  rw [← digits_eq_zero_iff]
  constructor
  · intro zero
    have total := zero (some emptyNgrams)
    have ngramTerm := ngramScoreDomain_nonneg (some emptyNgrams) 0 domain
    rw [score, noClass] at total
    have noDigits :
        ((dgaFeatures domain).digits : ℝ) / domain.length = 0 := by
      linarith
    have digits : (dgaFeatures domain).digits = 0 := by
      rw [five] at noDigits
      rcases div_eq_zero_iff.mp noDigits with none | short
      · exact Nat.cast_eq_zero.mp none
      · norm_num at short
    have flat :
        entropy 2 (lettersOf domain).length (frequencies domain) = 0 := by
      linarith
    have few : (lettersOf (firstLabel domain)).length ≤ 3 := by
      by_contra many
      rw [ngramScoreDomain_empty 0 (Nat.lt_of_not_le many)] at total
      linarith
    have rated : vowelConsonantScore realArithmetic domain = 0 := by
      linarith
    exact
      ⟨digits, (entropy_frequencies_eq_zero_iff domain).mp flat, few,
        (vowelConsonantScore_eq_zero_iff few).mp rated⟩
  · intro given table
    obtain ⟨digits, same, few, vowels⟩ := given
    have still := ((counted_dgaFeatures domain).still digits).1
    have flat := (entropy_frequencies_eq_zero_iff domain).mpr same
    have rated := (vowelConsonantScore_eq_zero_iff few).mpr vowels
    have notFound :=
      ngramScoreDomain_of_few table 0 (Nat.lt_succ_of_le few)
    rw [score, noClass, digits, still, flat, rated, notFound]
    simp

/-- The two scores of a name with a final dot are the same for every table. -/
def SameScores (front : Bytes) : Prop :=
  ∀ table,
    dgaScoreDomain (realModel table 0) front =
      dgaScoreDomain (realModel table 0) (front ++ [46])

theorem sameScores_unscored
    {front : Bytes} (isString : content (front ++ [46]) = front ++ [46])
    (unscored : front.length ≤ 3 ∨ alnumCount front < 2) :
    SameScores front := by
  intro table
  have shortFront : front.length < 5 ∨ alnumCount front < 2 := by omega
  have shortDot :
      (front ++ [46]).length < 5 ∨ alnumCount (front ++ [46]) < 2 := by
    rw [List.length_append, List.length_singleton, alnumCount_dot]
    omega
  rw [dgaScoreDomain_unscored table 0 (content_dot isString) shortFront,
    dgaScoreDomain_unscored table 0 isString shortDot]

/-- With four characters in front of it, the dot makes the name one that is
scored. -/
theorem sameScores_four_iff
    {front : Bytes} (isString : content (front ++ [46]) = front ++ [46])
    (four : front.length = 4) (enough : 2 ≤ alnumCount front) :
    SameScores front ↔
      (∀ character, character ∈ front ++ [46] →
        isDigit character = false) ∧ Monotonous (front ++ [46]) := by
  have five : (front ++ [46]).length = 5 := by
    rw [List.length_append, four]
    rfl
  have unscored : front.length < 5 ∨ alnumCount front < 2 := by omega
  rw [← alnumCount_dot] at enough
  rw [← dgaScoreDomain_five_iff isString five enough]
  apply forall_congr'
  intro table
  rw [dgaScoreDomain_unscored table 0 (content_dot isString) unscored]
  exact eq_comm

/-- A name that is scored with and without the dot. -/
theorem sameScores_long_iff
    {front : Bytes} (isString : content (front ++ [46]) = front ++ [46])
    (long : 5 ≤ front.length) (enough : 2 ≤ alnumCount front) :
    SameScores front ↔
      (∀ character, character ∈ front ++ [46] →
        isDigit character = false) ∧
          front.length ≠ 12 ∧ front.length ≠ 20 := by
  have gain :
      SameScores front ↔
        dotGain (dgaFeatures front) front.length = 0 := by
    constructor
    · intro same
      have equal := same none
      rw [dgaScoreDomain_dot none 0 isString long enough] at equal
      exact left_eq_add.mp equal
    · intro zero table
      rw [dgaScoreDomain_dot table 0 isString long enough, zero, add_zero]
  rw [gain, ← digits_eq_zero_iff, dgaFeatures_dot]
  by_cases step : front.length = 12 ∨ front.length = 20
  · constructor
    · intro zero
      exact absurd zero (dotGain_pos step).ne'
    · intro given
      omega
  · rw [not_or] at step
    rw [dotGain_eq_zero_iff long step.1 step.2]
    constructor
    · intro none
      exact ⟨none, step⟩
    · intro given
      exact given.1

/-- The two scores are the same exactly when the dot is harmless. -/
theorem sameScores_iff
    {front : Bytes} (isString : content (front ++ [46]) = front ++ [46]) :
    SameScores front ↔ DotHarmless (front ++ [46]) := by
  have behind : (front ++ [46]).length = front.length + 1 :=
    List.length_append
  have ends : (front ++ [46]).getLast? = some 46 := List.getLast?_concat
  rw [DotHarmless, behind, alnumCount_dot]
  by_cases unscored : front.length ≤ 3 ∨ alnumCount front < 2
  · constructor
    · intro _
      omega
    · intro _
      exact sameScores_unscored isString unscored
  · rw [not_or, Nat.not_le, Nat.not_lt] at unscored
    obtain ⟨long, enough⟩ := unscored
    have notDot : ¬ (front ++ [46]).getLast? ≠ some 46 :=
      not_not_intro ends
    have notShort : ¬ front.length + 1 ≤ 4 := by omega
    rw [or_iff_right notDot, or_iff_right notShort,
      or_iff_right (Nat.not_lt.mpr enough)]
    by_cases four : front.length = 4
    · rw [sameScores_four_iff isString four enough, four]
      constructor
      · intro given
        exact ⟨given.1, by decide, by decide, fun _ => given.2⟩
      · intro given
        exact ⟨given.1, given.2.2.2 rfl⟩
    · rw [sameScores_long_iff isString (by omega) enough]
      constructor
      · intro given
        exact
          ⟨given.1, fun same => given.2.1 (Nat.succ.inj same),
            fun same => given.2.2 (Nat.succ.inj same),
            fun same => absurd (Nat.succ.inj same) four⟩
      · intro given
        exact
          ⟨given.1, fun same => given.2.1 (congrArg Nat.succ same),
            fun same => given.2.2.1 (congrArg Nat.succ same)⟩

/-! ## The verdicts -/

theorem sameVerdict_iff_scores
    {qname : Bytes} (fits : FitsBuffer qname) :
    SameVerdict qname ↔
      ∀ table,
        dgaScoreDomain (realModel table 0) (normaliseDomain (content qname)) =
          dgaScoreDomain (realModel table 0) (content qname) := by
  have whole : ∀ model : ScoreModel ℝ,
      dgaScoreDomain model qname = dgaScoreDomain model (content qname) := by
    intro model
    simp only [dgaScoreDomain, content_content]
  constructor
  · intro same table
    by_contra different
    have verdict :=
      fun threshold =>
        same ⟨[], realModel table threshold, 0⟩ rfl
    simp only [policyCheckPreresolve, aboveThreshold,
      domainBuffer_of_fits fits, whole] at verdict
    rcases lt_or_gt_of_ne different with less | more
    · have apart :=
        verdict
          (dgaScoreDomain (realModel table 0)
            (normaliseDomain (content qname)))
      rw [Bool.eq_iff_iff] at apart
      exact lt_irrefl _ (of_decide_eq_true (apart.mpr (decide_eq_true less)))
    · have apart :=
        verdict (dgaScoreDomain (realModel table 0) (content qname))
      rw [Bool.eq_iff_iff] at apart
      exact lt_irrefl _ (of_decide_eq_true (apart.mp (decide_eq_true more)))
  · intro same ctx exact
    obtain ⟨lines, ⟨arith, table, threshold⟩, fluxIpMax⟩ := ctx
    subst exact
    have equal :
        dgaScoreDomain (realModel table threshold)
            (normaliseDomain (content qname)) =
          dgaScoreDomain (realModel table threshold) (content qname) :=
      same table
    rw [policyCheckPreresolve, aboveThreshold, aboveThreshold,
      domainBuffer_of_fits fits, whole]
    exact congrArg (realArithmetic.less threshold) equal

theorem sameVerdict_iff_dotHarmless
    {qname : Bytes} (fits : FitsBuffer qname) :
    SameVerdict qname ↔ DotHarmless (content qname) := by
  rw [sameVerdict_iff_scores fits]
  by_cases ends : (content qname).getLast? = some 46
  · obtain ⟨front, shape⟩ := List.getLast?_eq_some_iff.mp ends
    have isString : content (front ++ [46]) = front ++ [46] := by
      rw [← shape, content_content]
    rw [shape, normaliseDomain_append_dot]
    exact sameScores_iff isString
  · rw [normaliseDomain, if_neg ends]
    exact ⟨fun _ => Or.inl ends, fun _ _ => rfl⟩

/-- The two DGA checks agree on a question name, for every table and
threshold, exactly when its final dot makes no difference to the score. -/
theorem policyCheckPreresolve_agrees_iff
    {packet : Bytes} {query : DnsMessage} {question : DnsQuestion}
    (parsed : dnsParseMessage packet = .ok query)
    (asked : question ∈ query.questions) :
    SameVerdict question.qname ↔ DotHarmless (content question.qname) := by
  have short := (parsedName_of_dnsParseMessage parsed asked).short
  have fits : FitsBuffer question.qname :=
    Nat.le_of_lt
      (Nat.lt_of_le_of_lt (content_length_le question.qname) short)
  exact sameVerdict_iff_dotHarmless fits

/-- A query for a name of one label. -/
def labelQuery (label : Bytes) : Bytes :=
  [0, 0, 1, 0, 0, 1, 0, 0, 0, 0, 0, 0, label.length.toUInt8] ++ label ++
    [0, 0, 1, 0, 1]

def labelMessage (label : Bytes) : DnsMessage :=
  ⟨⟨0, 256, 1, 0, 0, 0⟩, [⟨label ++ [46], dnsTypeA, dnsClassIn⟩], [], [], []⟩

/-- The label `google`. -/
def googleLabel : Bytes := [103, 111, 111, 103, 108, 101]

/-- The name `google.` is scored, and its score is the same without the dot. -/
theorem policyCheckPreresolve_agrees_google :
    4 < (googleLabel ++ [46]).length ∧ 2 ≤ alnumCount (googleLabel ++ [46]) ∧
      SameVerdict (googleLabel ++ [46]) := by
  refine ⟨by decide +kernel, by decide +kernel, ?_⟩
  exact
    (@policyCheckPreresolve_agrees_iff (labelQuery googleLabel)
      (labelMessage googleLabel) ⟨googleLabel ++ [46], dnsTypeA, dnsClassIn⟩
      (by decide +kernel) List.mem_cons_self).mpr
        (Or.inr (Or.inr (Or.inr
          ⟨by decide +kernel, by decide +kernel, by decide +kernel,
            fun five => by cases five⟩)))

/-- The dot behind twelve letters raises the length class. -/
theorem not_sameVerdict_twelveLetters :
    ¬ ∀ (packet : Bytes) (query : DnsMessage) (question : DnsQuestion),
      dnsParseMessage packet = .ok query → question ∈ query.questions →
        SameVerdict question.qname := by
  intro always
  have same :=
    always (labelQuery (List.replicate 12 97))
      (labelMessage (List.replicate 12 97))
      ⟨List.replicate 12 97 ++ [46], dnsTypeA, dnsClassIn⟩
      (by decide +kernel) List.mem_cons_self
  have harmless := (sameVerdict_iff_dotHarmless (by decide)).mp same
  rcases harmless with noDot | short | few | plain
  · exact noDot (by decide)
  · exact absurd short (by decide)
  · exact absurd few (by decide)
  · exact absurd plain.2.1 (by decide)

end DnsFirewall
