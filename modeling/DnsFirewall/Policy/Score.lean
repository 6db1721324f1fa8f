import DnsFirewall.Foundations.CString
import DnsFirewall.Foundations.LinearProbing

/-!
# The DGA score

The features and the score of `policy.c`.  The counts are exact; what is
computed with `float` goes through an `Arithmetic`, which stands for the
floating-point operations of the machine, in the order in which the source
applies them.
-/

namespace DnsFirewall

open CString LinearProbing

/-- The operations on `float`.  `decimal digits places` is the constant
`digits / 10 ^ places`, and `aboveDouble` compares with such a constant in
double precision. -/
structure Arithmetic (F : Type) where
  ofNat : Nat → F
  decimal : Int → Nat → F
  add : F → F → F
  sub : F → F → F
  mul : F → F → F
  div : F → F → F
  abs : F → F
  log2 : F → F
  less : F → F → Bool
  aboveDouble : F → Int → Nat → Bool

/-- Exact arithmetic on the rationals, with the given logarithm. -/
def exactArithmetic (log2 : Rat → Rat) : Arithmetic Rat where
  ofNat := fun n => n
  decimal := fun digits places => mkRat digits (10 ^ places)
  add := (· + ·)
  sub := (· - ·)
  mul := (· * ·)
  div := (· / ·)
  abs := fun x => if x < 0 then -x else x
  log2 := log2
  less := fun x y => decide (x < y)
  aboveDouble := fun x digits places =>
    decide (mkRat digits (10 ^ places) < x)

/-- The 4-gram table that `load_ngram_model` fills.  An unused slot is one
whose gram starts with NUL; that there is one ends every search. -/
structure NgramTable (F : Type) where
  capacity : Nat
  entries : Fin capacity → Option (Bytes × F)
  unused : ∃ slot, entries slot = none

instance {F : Type} (table : NgramTable F) : NeZero table.capacity :=
  ⟨by
    obtain ⟨slot, _⟩ := table.unused
    intro empty
    have bound := slot.isLt
    omega⟩

/-- The globals of `policy.c` that the scores read: `hash_table` and
`g_dga_threshold`. -/
structure ScoreModel (F : Type) where
  arith : Arithmetic F
  hashTable : Option (NgramTable F)
  dgaThreshold : F

def isLowerLetter (character : UInt8) : Bool :=
  97 ≤ character && character ≤ 122

def isDigit (character : UInt8) : Bool :=
  48 ≤ character && character ≤ 57

/-- The label that the letter loops run over. -/
def firstLabel (domain : Bytes) : Bytes :=
  domain.takeWhile (· ≠ 46)

def hash4gram (gram : Bytes) : UInt32 :=
  gram.foldl (fun h character => (h ^^^ character.toUInt32) * 16777619)
    2166136261

variable {F : Type}

/-- The log-probability that the inner loop of `ngram_score_domain` finds for
a gram. -/
def ngramLogprob (arith : Arithmetic F) (table : NgramTable F)
    (gram : Bytes) : F :=
  let home : Fin table.capacity :=
    Fin.ofNat _ ((hash4gram gram).toNat &&& (table.capacity - 1))
  match probe Prod.fst table.entries home gram with
  | none => arith.decimal (-20) 0
  | some pass =>
      match table.entries (slotAt home pass) with
      | none => arith.decimal (-20) 0
      | some (_, logprob) => logprob

def ngramScoreDomain (model : ScoreModel F) (domain : Bytes) : F :=
  let arith := model.arith
  match model.hashTable with
  | none => arith.decimal 0 0
  | some table =>
      let letters := ((firstLabel domain).map toLower).filter isLowerLetter
      if letters.length < 4 then
        arith.decimal 0 0
      else
        let gramCount := letters.length - 4 + 1
        let sumLogprob :=
          (List.range gramCount).foldl
            (fun sum i =>
              arith.add sum
                (ngramLogprob arith table ((letters.drop i).take 4)))
            (arith.decimal 0 0)
        let avg := arith.div sumLogprob (arith.ofNat gramCount)
        let logLo := arith.decimal (-20) 0
        let logHi := arith.decimal (-1034) 2
        let norm := arith.div (arith.sub avg logLo) (arith.sub logHi logLo)
        let norm :=
          if arith.less norm (arith.decimal 0 0) then arith.decimal 0 0
          else norm
        let norm :=
          if arith.less (arith.decimal 1 0) norm then arith.decimal 1 0
          else norm
        arith.sub (arith.decimal 1 0) norm

/-- The counters of `vowel_consonant_score`; `prevType` is zero behind a vowel
and one behind a consonant. -/
structure VowelCount where
  vowels : Nat
  cons : Nat
  alt : Nat
  prevType : Option Nat
deriving DecidableEq, Repr

/-- The body of the loop in `vowel_consonant_score`. -/
def vowelStep (count : VowelCount) (character : UInt8) : VowelCount :=
  let c := toLower character
  if isLowerLetter c then
    if c ∈ [97, 101, 105, 111, 117] then
      { count with
        alt := if count.prevType = some 1 then count.alt + 1 else count.alt
        prevType := some 0
        vowels := count.vowels + 1 }
    else
      { count with
        alt := if count.prevType = some 0 then count.alt + 1 else count.alt
        prevType := some 1
        cons := count.cons + 1 }
  else
    count

def vowelConsonantScore (arith : Arithmetic F) (domain : Bytes) : F :=
  let count := (firstLabel domain).foldl vowelStep ⟨0, 0, 0, none⟩
  let total := count.vowels + count.cons
  if total < 2 then
    arith.decimal 0 0
  else
    let ratio := arith.div (arith.ofNat count.vowels) (arith.ofNat total)
    let ratioScore :=
      arith.sub (arith.decimal 1 0)
        (arith.mul (arith.abs (arith.sub ratio (arith.decimal 45 2)))
          (arith.decimal 2 0))
    let ratioScore :=
      if arith.less ratioScore (arith.decimal 0 0) then arith.decimal 0 0
      else ratioScore
    let altScore :=
      arith.div (arith.ofNat count.alt) (arith.ofNat (total - 1))
    arith.add (arith.mul ratioScore (arith.decimal 5 1))
      (arith.mul altScore (arith.decimal 5 1))

/-- The counters of `dga_score_domain`; `prevType` is one behind a letter, two
behind a digit and zero elsewhere. -/
structure DgaFeatures where
  letters : Nat
  digits : Nat
  counts : UInt8 → Nat
  total : Nat
  transitions : Nat
  prevType : Nat

/-- The body of the first loop in `dga_score_domain`. -/
def dgaStep (f : DgaFeatures) (character : UInt8) : DgaFeatures :=
  let c := toLower character
  if isLowerLetter c then
    { f with
      counts := Function.update f.counts c (f.counts c + 1)
      letters := f.letters + 1
      total := f.total + 1
      transitions :=
        if f.prevType = 2 then f.transitions + 1 else f.transitions
      prevType := 1 }
  else if isDigit c then
    { f with
      digits := f.digits + 1
      total := f.total + 1
      transitions :=
        if f.prevType = 1 then f.transitions + 1 else f.transitions
      prevType := 2 }
  else
    { f with prevType := 0 }

def dgaFeatures (domain : Bytes) : DgaFeatures :=
  domain.foldl dgaStep ⟨0, 0, fun _ => 0, 0, 0, 0⟩

/-- Subtract `p * log2f(p)` for the share of every positive count. -/
def entropyOf (arith : Arithmetic F) (counts : List Nat) (whole : Nat) :
    F :=
  counts.foldl
    (fun entropy count =>
      if 0 < count then
        let p := arith.div (arith.ofNat count) (arith.ofNat whole)
        arith.sub entropy (arith.mul p (arith.log2 p))
      else
        entropy)
    (arith.decimal 0 0)

def dgaScoreDomain (model : ScoreModel F) (domain : Bytes) : F :=
  let arith := model.arith
  let domain := content domain
  let len := domain.length
  if len < 5 then
    arith.decimal 0 0
  else
    let f := dgaFeatures domain
    if f.total < 2 then
      arith.decimal 0 0
    else
      let entropy :=
        if 0 < f.letters then
          entropyOf arith
            ((List.range 26).map fun i => f.counts (97 + i).toUInt8)
            f.letters
        else
          arith.decimal 0 0
      let entropyNorm := arith.div entropy (arith.decimal 47 1)
      let digitRatio := arith.div (arith.ofNat f.digits) (arith.ofNat len)
      let transitionScore :=
        if 1 < len then
          arith.div (arith.ofNat f.transitions) (arith.ofNat (len - 1))
        else
          arith.decimal 0 0
      let lenScore :=
        if 20 < len then arith.decimal 1 0
        else if 12 < len then arith.decimal 5 1
        else arith.decimal 0 0
      let ngram := ngramScoreDomain model domain
      let vowelCons := vowelConsonantScore arith domain
      arith.add (arith.add (arith.add (arith.add (arith.add
        (arith.mul entropyNorm (arith.decimal 20 2))
        (arith.mul digitRatio (arith.decimal 15 2)))
        (arith.mul transitionScore (arith.decimal 15 2)))
        (arith.mul lenScore (arith.decimal 10 2)))
        (arith.mul ngram (arith.decimal 25 2)))
        (arith.mul vowelCons (arith.decimal 15 2))

/-- `dga_score_domain(domain) > g_dga_threshold`. -/
def aboveThreshold (model : ScoreModel F) (domain : Bytes) : Bool :=
  model.arith.less model.dgaThreshold (dgaScoreDomain model domain)

theorem exists_probe_ngram
    (table : NgramTable F) (home : Fin table.capacity) (gram : Bytes) :
    ∃ pass, probe Prod.fst table.entries home gram = some pass := by
  cases found : probe Prod.fst table.entries home gram with
  | some pass => exact ⟨pass, rfl⟩
  | none =>
      obtain ⟨slot, empty⟩ := table.unused
      obtain ⟨entry, occupied, _⟩ :=
        (probe_eq_none_iff.mp found) slot
      rw [empty] at occupied
      cases occupied

/-- Every letter and digit is counted once. -/
theorem dgaFeatures_total (domain : Bytes) :
    (dgaFeatures domain).total =
      (dgaFeatures domain).letters + (dgaFeatures domain).digits := by
  have step :
      ∀ (rest : Bytes) (f : DgaFeatures),
        f.total = f.letters + f.digits →
          (rest.foldl dgaStep f).total =
            (rest.foldl dgaStep f).letters +
              (rest.foldl dgaStep f).digits := by
    intro rest
    induction rest with
    | nil => exact fun f sum => sum
    | cons head tail inductionHypothesis =>
        intro f sum
        refine inductionHypothesis (dgaStep f head) ?_
        unfold dgaStep
        simp only
        split
        · simp only
          omega
        · split
          · simp only
            omega
          · exact sum
  exact step domain _ rfl

/-- Names below five characters are not scored. -/
theorem dgaScoreDomain_of_short
    (model : ScoreModel F) {domain : Bytes}
    (short : (content domain).length < 5) :
    dgaScoreDomain model domain = model.arith.decimal 0 0 := by
  rw [dgaScoreDomain]
  simp only
  rw [if_pos short]

end DnsFirewall
