import DnsFirewall.Foundations.Entropy
import DnsFirewall.Policy.Evaluation
import Mathlib.Tactic.Linarith
import Mathlib.Tactic.NormNum

/-!
# The DGA score in exact arithmetic

With real numbers for `float`, every term of the score is at least zero, and
where one of them is zero can be read off the name.
-/

namespace DnsFirewall

open CString Entropy

/-- The arithmetic of the real numbers. -/
noncomputable def realArithmetic : Arithmetic ℝ where
  ofNat := fun n => n
  decimal := fun digits places => digits / 10 ^ places
  add := (· + ·)
  sub := (· - ·)
  mul := (· * ·)
  div := (· / ·)
  abs := fun x => |x|
  log2 := Real.logb 2
  less := fun x y => decide (x < y)
  aboveDouble := fun x digits places => decide (digits / 10 ^ places < x)

/-- The DGA model with this table and threshold. -/
noncomputable def realModel (table : Option (NgramTable ℝ))
    (threshold : ℝ) : ScoreModel ℝ :=
  ⟨realArithmetic, table, threshold⟩

/-- The letters of a text, in lower case. -/
def lettersOf (text : Bytes) : Bytes :=
  (text.map toLower).filter isLowerLetter

theorem decimal_real (digits : Int) (places : Nat) :
    realArithmetic.decimal digits places = digits / 10 ^ places :=
  rfl

theorem less_real (x y : ℝ) :
    realArithmetic.less x y = true ↔ x < y :=
  decide_eq_true_iff

theorem zero_real : realArithmetic.decimal 0 0 = 0 := by
  simp [decimal_real]

theorem one_real : realArithmetic.decimal 1 0 = 1 := by
  simp [decimal_real]

theorem floor_real (x : ℝ) :
    (if realArithmetic.less x 0 = true then 0 else x) = max 0 x := by
  by_cases negative : x < 0
  · rw [if_pos ((less_real x 0).mpr negative), max_eq_left negative.le]
  · rw [if_neg (fun less => negative ((less_real x 0).mp less)),
      max_eq_right (not_lt.mp negative)]

theorem ceiling_real (x : ℝ) :
    (if realArithmetic.less 1 x = true then 1 else x) = min 1 x := by
  by_cases large : 1 < x
  · rw [if_pos ((less_real 1 x).mpr large), min_eq_left large.le]
  · rw [if_neg (fun less => large ((less_real 1 x).mp less)),
      min_eq_right (not_lt.mp large)]

/-! ## Letter counts -/

theorem lettersOf_cons (character : UInt8) (text : Bytes) :
    lettersOf (character :: text) =
      if isLowerLetter (toLower character) then
        toLower character :: lettersOf text
      else
        lettersOf text := by
  rw [lettersOf, List.map_cons, List.filter_cons]
  rfl

theorem letters_foldl (text : Bytes) (f : DgaFeatures) :
    (text.foldl dgaStep f).letters = f.letters + (lettersOf text).length := by
  induction text generalizing f with
  | nil => rfl
  | cons character text inductionHypothesis =>
      rw [List.foldl_cons, inductionHypothesis, lettersOf_cons, dgaStep]
      by_cases letter : isLowerLetter (toLower character) = true
      · simp only [letter, if_true, List.length_cons]
        omega
      · by_cases digit : isDigit (toLower character) = true
        · simp [letter, digit]
        · simp [letter, digit]

theorem counts_foldl (text : Bytes) (f : DgaFeatures) (letter : UInt8) :
    (text.foldl dgaStep f).counts letter =
      f.counts letter + (lettersOf text).count letter := by
  induction text generalizing f with
  | nil => rfl
  | cons character text inductionHypothesis =>
      rw [List.foldl_cons, inductionHypothesis, lettersOf_cons, dgaStep]
      by_cases isLetter : isLowerLetter (toLower character) = true
      · simp only [isLetter, if_true, List.count_cons]
        by_cases here : letter = toLower character
        · subst here
          rw [Function.update_self, beq_self_eq_true, if_pos rfl]
          omega
        · have apart : (toLower character == letter) = false :=
            beq_eq_false_iff_ne.mpr (Ne.symm here)
          rw [Function.update_of_ne here, apart]
          simp
      · by_cases digit : isDigit (toLower character) = true
        · simp [isLetter, digit]
        · simp [isLetter, digit]

theorem letters_dgaFeatures (domain : Bytes) :
    (dgaFeatures domain).letters = (lettersOf domain).length :=
  (letters_foldl domain _).trans (Nat.zero_add _)

theorem counts_dgaFeatures (domain : Bytes) (letter : UInt8) :
    (dgaFeatures domain).counts letter = (lettersOf domain).count letter :=
  (counts_foldl domain _ letter).trans (Nat.zero_add _)

/-! ## The entropy term -/

/-- How often each of the 26 letters occurs. -/
def frequencies (domain : Bytes) : List Nat :=
  (List.range 26).map fun i => (lettersOf domain).count (97 + i).toUInt8

theorem entropyOf_real (counts : List Nat) (whole : Nat) :
    entropyOf realArithmetic counts whole = entropy 2 whole counts := by
  have sum :
      ∀ start : ℝ,
        counts.foldl
            (fun entropy count =>
              if 0 < count then
                let p :=
                  realArithmetic.div (realArithmetic.ofNat count)
                    (realArithmetic.ofNat whole)
                realArithmetic.sub entropy
                  (realArithmetic.mul p (realArithmetic.log2 p))
              else
                entropy)
            start =
          start + entropy 2 whole counts := by
    induction counts with
    | nil =>
        intro start
        exact (add_zero start).symm
    | cons count counts inductionHypothesis =>
        intro start
        rw [List.foldl_cons, inductionHypothesis, entropy_cons,
          ← add_assoc]
        by_cases positive : 0 < count
        · rw [if_pos positive]
          rfl
        · have none : count = 0 := Nat.eq_zero_of_not_pos positive
          rw [if_neg positive, none, surprisal_zero, add_zero]
  rw [entropyOf, sum, zero_real, zero_add]

theorem mem_lettersOf {text : Bytes} {letter : UInt8}
    (member : letter ∈ lettersOf text) :
    isLowerLetter letter = true :=
  List.of_mem_filter member

/-- A lower-case letter is one of those counted. -/
theorem exists_of_isLowerLetter
    {letter : UInt8} (isLetter : isLowerLetter letter = true) :
    ∃ i, i ∈ List.range 26 ∧ (97 + i).toUInt8 = letter := by
  rw [isLowerLetter, Bool.and_eq_true, decide_eq_true_iff,
    decide_eq_true_iff, UInt8.le_iff_toNat_le, UInt8.le_iff_toNat_le]
    at isLetter
  have first : (97 : UInt8).toNat = 97 := rfl
  have last : (122 : UInt8).toNat = 122 := rfl
  refine ⟨letter.toNat - 97, List.mem_range.mpr (by omega), ?_⟩
  apply UInt8.toNat_inj.mp
  have whole : 97 + (letter.toNat - 97) = letter.toNat := by omega
  rw [whole]
  exact Nat.mod_eq_of_lt letter.toNat_lt

theorem frequencies_le (domain : Bytes) :
    ∀ count, count ∈ frequencies domain →
      count ≤ (lettersOf domain).length := by
  intro count member
  obtain ⟨i, _, rfl⟩ := List.mem_map.mp member
  exact List.count_le_length

/-- The entropy is zero when no two letters of the name differ. -/
theorem entropy_frequencies_eq_zero_iff (domain : Bytes) :
    entropy 2 (lettersOf domain).length (frequencies domain) = 0 ↔
      ∀ first, first ∈ lettersOf domain →
        ∀ second, second ∈ lettersOf domain → first = second := by
  rw [entropy_eq_zero_iff one_lt_two (frequencies_le domain)]
  constructor
  · intro edges first isFirst second isSecond
    obtain ⟨i, inRange, isLetter⟩ :=
      exists_of_isLowerLetter (mem_lettersOf isFirst)
    have edge :=
      edges ((lettersOf domain).count (97 + i).toUInt8)
        (List.mem_map_of_mem inRange)
    rw [isLetter] at edge
    rcases edge with none | all
    · exact absurd isFirst (List.count_eq_zero.mp none)
    · exact List.count_eq_length.mp all second isSecond
  · intro same count member
    obtain ⟨i, _, rfl⟩ := List.mem_map.mp member
    by_cases occurs : (97 + i).toUInt8 ∈ lettersOf domain
    · right
      apply List.count_eq_length.mpr
      exact same _ occurs
    · exact Or.inl (List.count_eq_zero.mpr occurs)

/-! ## The vowel term -/

def isVowel (letter : UInt8) : Bool :=
  letter ∈ [97, 101, 105, 111, 117]

theorem vowels_foldl (text : Bytes) (count : VowelCount) :
    (text.foldl vowelStep count).vowels =
        count.vowels + (lettersOf text).countP isVowel ∧
      (text.foldl vowelStep count).cons =
        count.cons + (lettersOf text).countP (!isVowel ·) := by
  induction text generalizing count with
  | nil => exact ⟨rfl, rfl⟩
  | cons character text inductionHypothesis =>
      obtain ⟨vowels, cons⟩ := inductionHypothesis (vowelStep count character)
      rw [List.foldl_cons, vowels, cons, lettersOf_cons, vowelStep]
      by_cases letter : isLowerLetter (toLower character) = true
      · by_cases vowel : toLower character ∈ [97, 101, 105, 111, 117]
        · have isVowel : isVowel (toLower character) = true :=
            decide_eq_true vowel
          simp only [letter, vowel, if_true, List.countP_cons, isVowel,
            Bool.not_true, Bool.false_eq_true, if_false]
          omega
        · have isVowel : isVowel (toLower character) = false :=
            decide_eq_false vowel
          simp only [letter, vowel, if_true, List.countP_cons, isVowel,
            Bool.not_false, Bool.false_eq_true, if_false]
          omega
      · simp [letter]

/-- Vowels alone do not alternate. -/
theorem alt_foldl
    {text : Bytes} (vowels : ∀ letter, letter ∈ lettersOf text →
      isVowel letter = true)
    {count : VowelCount} (noConsonant : count.prevType ≠ some 1) :
    (text.foldl vowelStep count).alt = count.alt := by
  induction text generalizing count with
  | nil => rfl
  | cons character text inductionHypothesis =>
      rw [lettersOf_cons] at vowels
      rw [List.foldl_cons]
      by_cases letter : isLowerLetter (toLower character) = true
      · rw [if_pos letter] at vowels
        have vowel : toLower character ∈ [97, 101, 105, 111, 117] :=
          of_decide_eq_true (vowels _ List.mem_cons_self)
        have step :
            vowelStep count character =
              { count with prevType := some 0, vowels := count.vowels + 1 } := by
          rw [vowelStep]
          simp only [letter, vowel, if_true, if_neg noConsonant]
        rw [step]
        exact
          inductionHypothesis
            (fun other member =>
              vowels other (List.mem_cons_of_mem _ member))
            (by simp)
      · rw [if_neg letter] at vowels
        have step : vowelStep count character = count := by
          rw [vowelStep]
          simp only [letter, Bool.false_eq_true, if_false]
        rw [step]
        exact inductionHypothesis vowels noConsonant

/-- The counters of `vowel_consonant_score` after its loop. -/
def vowelCount (domain : Bytes) : VowelCount :=
  (firstLabel domain).foldl vowelStep ⟨0, 0, 0, none⟩

theorem vowelCount_vowels (domain : Bytes) :
    (vowelCount domain).vowels =
      (lettersOf (firstLabel domain)).countP isVowel :=
  (vowels_foldl _ _).1.trans (Nat.zero_add _)

theorem vowelCount_cons (domain : Bytes) :
    (vowelCount domain).cons =
      (lettersOf (firstLabel domain)).countP (!isVowel ·) :=
  (vowels_foldl _ _).2.trans (Nat.zero_add _)

theorem vowelCount_total (domain : Bytes) :
    (vowelCount domain).vowels + (vowelCount domain).cons =
      (lettersOf (firstLabel domain)).length := by
  have split :=
    @List.length_eq_countP_add_countP _ isVowel
      (lettersOf (firstLabel domain))
  simp only [decide_not, Bool.decide_eq_true] at split
  rw [vowelCount_vowels, vowelCount_cons, split]

/-- The share of vowels, as `vowel_consonant_score` rates it. -/
noncomputable def ratioScore (vowels total : Nat) : ℝ :=
  max 0 (1 - |(vowels : ℝ) / total - 45 / 100| * 2)

theorem vowelConsonantScore_real (domain : Bytes) :
    vowelConsonantScore realArithmetic domain =
      if (lettersOf (firstLabel domain)).length < 2 then 0
      else
        ratioScore (vowelCount domain).vowels
            (lettersOf (firstLabel domain)).length * (5 / 10) +
          ((vowelCount domain).alt : ℝ) /
              ((lettersOf (firstLabel domain)).length - 1 : Nat) *
            (5 / 10) := by
  rw [← vowelCount_total]
  rw [vowelConsonantScore]
  simp only [zero_real, floor_real]
  by_cases few : (vowelCount domain).vowels + (vowelCount domain).cons < 2
  · rw [if_pos few]
    exact if_pos few
  · rw [if_neg few]
    refine (if_neg few).trans ?_
    simp only [ratioScore, decimal_real]
    norm_num [realArithmetic, vowelCount]

theorem vowelConsonantScore_nonneg (domain : Bytes) :
    0 ≤ vowelConsonantScore realArithmetic domain := by
  rw [vowelConsonantScore_real]
  split
  · exact le_refl 0
  · have rated : 0 ≤ ratioScore (vowelCount domain).vowels
        (lettersOf (firstLabel domain)).length :=
      le_max_left _ _
    have alternated :
        (0 : ℝ) ≤ ((vowelCount domain).alt : ℝ) /
          ((lettersOf (firstLabel domain)).length - 1 : Nat) :=
      div_nonneg (Nat.cast_nonneg _) (Nat.cast_nonneg _)
    linarith

/-- Vowels alone are rated zero. -/
theorem ratioScore_self {total : Nat} (positive : 0 < total) :
    ratioScore total total = 0 := by
  have share : (total : ℝ) / total = 1 :=
    div_self (Nat.cast_ne_zero.mpr (Nat.pos_iff_ne_zero.mp positive))
  rw [ratioScore, share]
  norm_num

/-- With up to three letters, a consonant among them is rated above zero. -/
theorem ratioScore_pos
    {vowels total : Nat} (fewer : vowels < total) (few : total ≤ 3) :
    0 < ratioScore vowels total := by
  apply lt_max_of_lt_right
  have cases :
      (vowels = 0 ∧ 1 ≤ total) ∨ (vowels = 1 ∧ total = 2) ∨
        (vowels = 1 ∧ total = 3) ∨ (vowels = 2 ∧ total = 3) := by
    omega
  rcases cases with none | half | third | most
  · rw [none.1]
    norm_num
  · rw [half.1, half.2]
    norm_num
  · rw [third.1, third.2]
    norm_num
  · rw [most.1, most.2]
    norm_num

/-- With up to three letters in the first label the vowel score is zero when
there are fewer than two, or all of them are vowels. -/
theorem vowelConsonantScore_eq_zero_iff
    {domain : Bytes} (few : (lettersOf (firstLabel domain)).length ≤ 3) :
    vowelConsonantScore realArithmetic domain = 0 ↔
      (lettersOf (firstLabel domain)).length < 2 ∨
        ∀ letter, letter ∈ lettersOf (firstLabel domain) →
          isVowel letter = true := by
  rw [vowelConsonantScore_real]
  by_cases short : (lettersOf (firstLabel domain)).length < 2
  · rw [if_pos short]
    exact ⟨fun _ => Or.inl short, fun _ => rfl⟩
  rw [if_neg short]
  have alternated :
      (0 : ℝ) ≤ ((vowelCount domain).alt : ℝ) /
        ((lettersOf (firstLabel domain)).length - 1 : Nat) :=
    div_nonneg (Nat.cast_nonneg _) (Nat.cast_nonneg _)
  constructor
  · intro zero
    right
    by_contra consonant
    have fewer : (vowelCount domain).vowels <
        (lettersOf (firstLabel domain)).length := by
      rw [vowelCount_vowels]
      apply Nat.lt_of_le_of_ne List.countP_le_length
      intro all
      exact consonant (List.countP_eq_length.mp all)
    have rated := ratioScore_pos fewer few
    linarith
  · intro given
    rcases given with isShort | vowels
    · exact absurd isShort short
    · have all : (vowelCount domain).vowels =
          (lettersOf (firstLabel domain)).length := by
        rw [vowelCount_vowels]
        exact List.countP_eq_length.mpr vowels
      have still : (vowelCount domain).alt = 0 :=
        alt_foldl vowels (by simp)
      rw [all, ratioScore_self (by omega), still]
      simp

/-! ## The 4-gram term -/

/-- A table without grams. -/
def emptyNgrams : NgramTable ℝ where
  capacity := 1
  entries := fun _ => none
  unused := ⟨0, rfl⟩

/-- What `ngram_score_domain` makes of the average. -/
noncomputable def ngramNorm (avg : ℝ) : ℝ :=
  1 - min 1 (max 0 ((avg + 20) / (-1034 / 100 + 20)))

theorem ngramScoreDomain_real
    (table : NgramTable ℝ) (threshold : ℝ) (domain : Bytes) :
    ngramScoreDomain (realModel (some table) threshold) domain =
      if (lettersOf (firstLabel domain)).length < 4 then 0
      else
        ngramNorm
          ((List.range
              ((lettersOf (firstLabel domain)).length - 4 + 1)).foldl
            (fun sum i =>
              sum +
                ngramLogprob realArithmetic table
                  (((lettersOf (firstLabel domain)).drop i).take 4))
            0 /
          ((lettersOf (firstLabel domain)).length - 4 + 1 : Nat)) := by
  rw [ngramScoreDomain]
  simp only [realModel, zero_real, one_real, floor_real, ceiling_real]
  by_cases few : (lettersOf (firstLabel domain)).length < 4
  · rw [if_pos few]
    exact if_pos few
  · rw [if_neg few]
    refine (if_neg few).trans ?_
    simp only [ngramNorm, decimal_real, lettersOf]
    norm_num [realArithmetic]

theorem ngramScoreDomain_nonneg
    (table : Option (NgramTable ℝ)) (threshold : ℝ) (domain : Bytes) :
    0 ≤ ngramScoreDomain (realModel table threshold) domain := by
  cases table with
  | none => exact zero_real.ge
  | some table =>
      rw [ngramScoreDomain_real]
      split
      · exact le_refl 0
      · exact sub_nonneg.mpr (min_le_left _ _)

/-- Fewer than four letters are not looked up. -/
theorem ngramScoreDomain_of_few
    (table : Option (NgramTable ℝ)) (threshold : ℝ) {domain : Bytes}
    (few : (lettersOf (firstLabel domain)).length < 4) :
    ngramScoreDomain (realModel table threshold) domain = 0 := by
  cases table with
  | none => exact zero_real
  | some table => rw [ngramScoreDomain_real, if_pos few]

theorem ngramLogprob_empty (gram : Bytes) :
    ngramLogprob realArithmetic emptyNgrams gram = -20 := by
  have lookup :
      ngramLogprob realArithmetic emptyNgrams gram =
        realArithmetic.decimal (-20) 0 := by
    rw [ngramLogprob]
    split
    · rfl
    · rfl
  rw [lookup, decimal_real]
  norm_num

theorem foldl_add_const (step : ℝ) (count : Nat) :
    (List.range count).foldl (fun sum _ => sum + step) 0 = count * step := by
  induction count with
  | zero => simp
  | succ count inductionHypothesis =>
      rw [List.range_succ, List.foldl_concat, inductionHypothesis]
      push_cast
      ring

/-- Without grams, four letters have the highest score. -/
theorem ngramScoreDomain_empty
    (threshold : ℝ) {domain : Bytes}
    (enough : 4 ≤ (lettersOf (firstLabel domain)).length) :
    ngramScoreDomain (realModel (some emptyNgrams) threshold) domain =
      1 := by
  have positive :
      (((lettersOf (firstLabel domain)).length - 4 + 1 : Nat) : ℝ) ≠ 0 :=
    Nat.cast_ne_zero.mpr (Nat.succ_ne_zero _)
  rw [ngramScoreDomain_real, if_neg (by omega)]
  simp only [ngramLogprob_empty]
  rw [foldl_add_const, mul_div_cancel_left₀ _ positive, ngramNorm]
  norm_num

/-! ## The score -/

noncomputable def lengthScore (len : Nat) : ℝ :=
  if 20 < len then 1 else if 12 < len then 1 / 2 else 0

/-- What a dot behind a name of the given length adds to its score. -/
noncomputable def dotGain (f : DgaFeatures) (len : Nat) : ℝ :=
  ((f.digits : ℝ) / (len + 1 : Nat) - f.digits / len) * (15 / 100) +
    ((f.transitions : ℝ) / len - f.transitions / (len - 1 : Nat)) *
      (15 / 100) +
    (lengthScore (len + 1) - lengthScore len) * (10 / 100)

theorem entropyTerm_real (domain : Bytes) :
    (if 0 < (dgaFeatures domain).letters then
        entropyOf realArithmetic
          ((List.range 26).map fun i =>
            (dgaFeatures domain).counts (97 + i).toUInt8)
          (dgaFeatures domain).letters
      else
        realArithmetic.decimal 0 0) =
      entropy 2 (lettersOf domain).length (frequencies domain) := by
  simp only [counts_dgaFeatures, letters_dgaFeatures, entropyOf_real]
  by_cases some : 0 < (lettersOf domain).length
  · exact if_pos some
  · have none : lettersOf domain = [] :=
      List.eq_nil_of_length_eq_zero (Nat.eq_zero_of_not_pos some)
    have flat :=
      (entropy_frequencies_eq_zero_iff domain).mpr (by simp [none])
    rw [if_neg some, flat, zero_real]

theorem lengthScore_real (len : Nat) :
    (if 20 < len then realArithmetic.decimal 1 0
      else if 12 < len then realArithmetic.decimal 5 1
      else realArithmetic.decimal 0 0) =
      lengthScore len := by
  have half : realArithmetic.decimal 5 1 = 1 / 2 := by
    rw [decimal_real]
    norm_num
  rw [one_real, half, zero_real, lengthScore]

/-- The score of a name that is scored. -/
theorem dgaScoreDomain_real
    (table : Option (NgramTable ℝ)) (threshold : ℝ) {domain : Bytes}
    (isString : content domain = domain) (long : 5 ≤ domain.length)
    (enough : 2 ≤ alnumCount domain) :
    dgaScoreDomain (realModel table threshold) domain =
      entropy 2 (lettersOf domain).length (frequencies domain) / (47 / 10) *
            (20 / 100) +
          ((dgaFeatures domain).digits : ℝ) / domain.length * (15 / 100) +
        ((dgaFeatures domain).transitions : ℝ) /
            (domain.length - 1 : Nat) * (15 / 100) +
        lengthScore domain.length * (10 / 100) +
        ngramScoreDomain (realModel table threshold) domain * (25 / 100) +
        vowelConsonantScore realArithmetic domain * (15 / 100) := by
  have isLong : ¬ domain.length < 5 := Nat.not_lt.mpr long
  have isEnough : ¬ (dgaFeatures domain).total < 2 := by
    rw [total_dgaFeatures]
    exact Nat.not_lt.mpr enough
  have several : 1 < domain.length := by omega
  have model : (realModel table threshold).arith = realArithmetic := rfl
  rw [dgaScoreDomain]
  simp only [isString, if_neg isLong, if_neg isEnough, if_pos several,
    model, entropyTerm_real, lengthScore_real]
  simp only [decimal_real]
  norm_num [realArithmetic]

end DnsFirewall
