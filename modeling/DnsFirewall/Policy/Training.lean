import DnsFirewall.Foundations.Tally
import DnsFirewall.Policy.NgramModel
import Mathlib.Data.Fintype.Prod
import Mathlib.Data.List.DropRight
import Mathlib.Data.List.FinRange

/-!
# Training the 4-gram model

`build_4grams.py` counts the grams of a list of domains and writes the model
file that `load_ngram_model` reads.  Its grams have four letters each, so there
are never too many of them for the loader: every model that is trained is
loaded as it was written.
-/

namespace DnsFirewall

open BigEndian CString LinearProbing Occupancy Tally

variable {F : Type}

/-! ## The scripts -/

/-- The methods of `str` that the scripts use: what `strip` takes for a blank,
and `lower`, which works by character on ASCII text. -/
structure StrMethods where
  isspace : Char → Bool
  lower : List Char → List Char
  isspace_ascii : ∀ c, c.toNat < 128 →
    (isspace c = true ↔
      (9 ≤ c.toNat ∧ c.toNat ≤ 13) ∨ (28 ≤ c.toNat ∧ c.toNat ≤ 32))
  lower_ascii : ∀ text, (∀ c, c ∈ text → c.toNat < 128) →
    lower text = text.map Char.toLower

def StrMethods.strip (methods : StrMethods) (text : List Char) :
    List Char :=
  (text.dropWhile methods.isspace).rdropWhile methods.isspace

/-- A lower case letter, as the byte that stands for it. -/
abbrev Letter := { character : UInt8 // isLowerLetter character = true }

theorem isLowerLetter_of_between
    {c : Char} (between : 'a' ≤ c ∧ c ≤ 'z') :
    isLowerLetter c.toNat.toUInt8 = true := by
  obtain ⟨above, below⟩ := between
  have low : 97 ≤ c.toNat := above
  have high : c.toNat ≤ 122 := below
  have same : c.toNat.toUInt8.toNat = c.toNat :=
    Nat.mod_eq_of_lt (by omega)
  rw [isLowerLetter, Bool.and_eq_true, decide_eq_true_eq,
    decide_eq_true_eq, UInt8.le_iff_toNat_le, UInt8.le_iff_toNat_le, same]
  exact ⟨low, high⟩

/-- The character, if it is between `a` and `z`. -/
def letterOf (c : Char) : Option Letter :=
  if between : 'a' ≤ c ∧ c ≤ 'z' then
    some ⟨c.toNat.toUInt8, isLowerLetter_of_between between⟩
  else
    none

structure Gram where
  first : Letter
  second : Letter
  third : Letter
  fourth : Letter
deriving DecidableEq

/-- `gram.encode('ascii')`. -/
def Gram.bytes (gram : Gram) : Bytes :=
  [gram.first.val, gram.second.val, gram.third.val, gram.fourth.val]

/-- The letters of the first label, `domain.strip().split('.')[0].lower()`. -/
def sldLetters (methods : StrMethods) (domain : List Char) :
    List Letter :=
  (methods.lower
    ((methods.strip domain).takeWhile (· ≠ '.'))).filterMap letterOf

/-- The slices of four letters. -/
def gramsOf (letters : List Letter) : List Gram :=
  (List.finRange (letters.length - 3)).map fun i =>
    ⟨letters[i.val], letters[i.val + 1], letters[i.val + 2],
      letters[i.val + 3]⟩

def extract4grams (methods : StrMethods) (domain : List Char) :
    List Gram :=
  let letters := sldLetters methods domain
  if letters.length < 4 then [] else gramsOf letters

/-- The default of `top_n`. -/
def topN : Nat := 500000

/-- The grams that `build_model` counts. -/
def trainingGrams (methods : StrMethods) (lines : List (List Char)) :
    List Gram :=
  (lines.take topN).flatMap fun line =>
    extract4grams methods (methods.strip line)

/-- The loop over the lines. -/
def countGrams (methods : StrMethods) (lines : List (List Char)) :
    List (Gram × Nat) :=
  (lines.take topN).foldl
    (fun counter line =>
      update counter (extract4grams methods (methods.strip line)))
    []

/-- `struct.pack('<f', math.log2(count / whole))`, by the two counts. -/
structure PackedLog where
  pack : Nat → Nat → Bytes
  size : ∀ count whole, (pack count whole).length = 4

/-- The file that `build_model` writes. -/
def buildModel (methods : StrMethods) (packed : PackedLog)
    (lines : List (List Char)) : Bytes :=
  let counter := countGrams methods lines
  let total := (counter.map Prod.snd).sum
  (bytes32 counter.length.toUInt32).reverse ++
    (mostCommon counter).flatMap fun (gram, count) =>
      gram.bytes ++ packed.pack (count + 1) (total + counter.length)

/-! ## Letters and grams -/

/-- The place of a letter in the alphabet. -/
def Letter.place (letter : Letter) : Fin 26 :=
  ⟨letter.val.toNat - 97, by
    have lower := letter.property
    rw [isLowerLetter, Bool.and_eq_true, decide_eq_true_eq,
      decide_eq_true_eq, UInt8.le_iff_toNat_le,
      UInt8.le_iff_toNat_le] at lower
    obtain ⟨low, high⟩ := lower
    have first : (97 : UInt8).toNat = 97 := rfl
    have last : (122 : UInt8).toNat = 122 := rfl
    omega⟩

theorem Letter.place_injective : Function.Injective Letter.place := by
  intro left right same
  have places := congrArg Fin.val same
  have low :
      ∀ letter : Letter, 97 ≤ letter.val.toNat := by
    intro letter
    have lower := letter.property
    rw [isLowerLetter, Bool.and_eq_true, decide_eq_true_eq,
      decide_eq_true_eq, UInt8.le_iff_toNat_le] at lower
    exact lower.1
  apply Subtype.ext
  apply UInt8.toNat_inj.mp
  have lowLeft := low left
  have lowRight := low right
  simp only [Letter.place] at places
  omega

/-- The places of the letters of a gram. -/
def Gram.places (gram : Gram) : Fin 26 × Fin 26 × Fin 26 × Fin 26 :=
  (gram.first.place, gram.second.place, gram.third.place,
    gram.fourth.place)

theorem Gram.places_injective : Function.Injective Gram.places := by
  intro ⟨_, _, _, _⟩ ⟨_, _, _, _⟩ same
  simp only [Gram.places, Prod.mk.injEq] at same
  obtain ⟨first, second, third, fourth⟩ := same
  rw [Gram.mk.injEq]
  exact
    ⟨Letter.place_injective first, Letter.place_injective second,
      Letter.place_injective third, Letter.place_injective fourth⟩

theorem Gram.bytes_injective : Function.Injective Gram.bytes := by
  intro ⟨_, _, _, _⟩ ⟨_, _, _, _⟩ same
  simp only [Gram.bytes, List.cons.injEq, and_true] at same
  obtain ⟨first, second, third, fourth⟩ := same
  rw [Gram.mk.injEq]
  exact
    ⟨Subtype.ext first, Subtype.ext second, Subtype.ext third,
      Subtype.ext fourth⟩

theorem Gram.head_bytes_ne_nul (gram : Gram) :
    gram.bytes.head? ≠ some 0 := by
  intro isNul
  have lower := gram.first.property
  have first : gram.first.val = 0 := Option.some.inj isNul
  rw [first] at lower
  cases lower

/-! ## The counts -/

theorem tallies_countGrams
    (methods : StrMethods) (lines : List (List Char)) :
    Tallies (countGrams methods lines) (trainingGrams methods lines) := by
  rw [countGrams, trainingGrams]
  generalize lines.take topN = lines
  have from_ :
      ∀ (counter : List (Gram × Nat)) (grams : List Gram),
        Tallies counter grams →
          Tallies
            (lines.foldl
              (fun counter line =>
                update counter
                  (extract4grams methods (methods.strip line)))
              counter)
            (grams ++ lines.flatMap fun line =>
              extract4grams methods (methods.strip line)) := by
    induction lines with
    | nil =>
        intro counter grams tallies
        rw [List.flatMap_nil, List.append_nil]
        exact tallies
    | cons line lines inductionHypothesis =>
        intro counter grams tallies
        rw [List.foldl_cons, List.flatMap_cons, ← List.append_assoc]
        exact inductionHypothesis _ _ (tallies.update _)
  exact from_ [] [] tallies_nil

/-! ## The trained file -/

/-- The number that the file has for a gram. -/
def PackedLog.number (packed : PackedLog) (grams : List Gram)
    (gram : Gram) : Bytes :=
  packed.pack (grams.count gram + 1) (grams.length + grams.dedup.length)

/-- The record of an entry of the counter. -/
def PackedLog.record (packed : PackedLog) (whole : Nat)
    (entry : Gram × Nat) : GramRecord where
  gram := entry.1.bytes
  logprob := packed.pack (entry.2 + 1) whole
  gramSize := rfl
  logprobSize := packed.size _ _

theorem buildModel_eq_modelFile
    (methods : StrMethods) (packed : PackedLog)
    (lines : List (List Char)) :
    let counter := countGrams methods lines
    let whole := (counter.map Prod.snd).sum + counter.length
    buildModel methods packed lines =
      modelFile ((mostCommon counter).map (packed.record whole)) [] := by
  intro counter whole
  rw [modelFile, List.length_map, List.flatMap_map, List.append_nil,
    mostCommon, List.length_mergeSort]
  rfl

/-- The records that are loaded hold the grams of the file. -/
theorem exists_table_modelFile
    (ofBytes : Bytes → F) (records : List GramRecord)
    (few : records.length ≤ 1073741824)
    (distinct : (records.map GramRecord.gram).Nodup)
    (noNul : ∀ record, record ∈ records → record.gram.head? ≠ some 0) :
    ∃ table : NgramTable F,
      LoadsInto ofBytes (modelFile records []) table.slots ∧
        Holds Prod.fst (ngramHome table.capacity) table.entries
          (records.map (GramRecord.entry ofBytes)) := by
  obtain ⟨count, bound, room⟩ := capacityFor_count few
  have counted := readCount_modelFile records []
  have read := recordsRead_flatMap ofBytes records []
  have takes :
      ∀ entry, entry ∈ records.map (GramRecord.entry ofBytes) →
        takesSlot entry = true := by
    intro entry member
    obtain ⟨record, isRecord, rfl⟩ := List.mem_map.mp member
    exact takesSlot_entry ofBytes (noNul record isRecord)
  have all :
      (records.map (GramRecord.entry ofBytes)).countP takesSlot =
        records.length := by
    rw [List.countP_eq_length.mpr takes, List.length_map]
  obtain ⟨doubled, entries, fuel, capacity, inserted, loads⟩ :=
    @loadsInto_of_fit F ofBytes _ _ _ counted (by omega)
      (by rw [count, read, all]; exact room)
  rw [count, read] at inserted
  have used := card_insertRecords inserted
  rw [occupied_none, Finset.card_empty, Nat.zero_add, all] at used
  have unused : ∃ slot, entries slot = none :=
    card_occupied_lt_iff.mp (by omega)
  have grams :
      (records.map (GramRecord.entry ofBytes)).map Prod.fst =
        records.map GramRecord.gram := by
    rw [List.map_map]
    rfl
  have holds :=
    holds_insertRecords holds_nil
      (by rw [List.nil_append, grams]; exact distinct) takes inserted
  rw [List.nil_append] at holds
  exact ⟨⟨_, entries, unused⟩, loads, holds⟩

theorem card_grams : Fintype.card (Fin 26 × Fin 26 × Fin 26 × Fin 26) =
    456976 := by
  simp

/-- The records of the file that is written. -/
def trainedRecords (methods : StrMethods) (packed : PackedLog)
    (lines : List (List Char)) : List GramRecord :=
  let grams := trainingGrams methods lines
  (mostCommon (countGrams methods lines)).map
    (packed.record (grams.length + grams.dedup.length))

theorem buildModel_eq_trainedRecords
    (methods : StrMethods) (packed : PackedLog)
    (lines : List (List Char)) :
    buildModel methods packed lines =
      modelFile (trainedRecords methods packed lines) [] := by
  have tallies := tallies_countGrams methods lines
  rw [buildModel_eq_modelFile, tallies.total, tallies.length_eq]
  rfl

theorem length_trainedRecords_le
    (methods : StrMethods) (packed : PackedLog)
    (lines : List (List Char)) :
    (trainedRecords methods packed lines).length ≤ 456976 := by
  have few :=
    Tallies.length_le_card (tallies_countGrams methods lines).mostCommon.nodup
      Gram.places_injective
  rw [card_grams] at few
  rw [trainedRecords, List.length_map]
  exact few

/-- The loader ends with a table of these records. -/
theorem exists_table_buildModel
    (methods : StrMethods) (packed : PackedLog)
    (lines : List (List Char)) (ofBytes : Bytes → F) :
    ∃ table : NgramTable F,
      LoadsInto ofBytes (buildModel methods packed lines) table.slots ∧
        Holds Prod.fst (ngramHome table.capacity) table.entries
          ((trainedRecords methods packed lines).map
            (GramRecord.entry ofBytes)) := by
  have sorted := (tallies_countGrams methods lines).mostCommon
  have few := length_trainedRecords_le methods packed lines
  rw [buildModel_eq_trainedRecords]
  apply exists_table_modelFile ofBytes _ (by omega)
  · rw [trainedRecords, List.map_map]
    have bytes :
        ∀ whole, GramRecord.gram ∘ packed.record whole =
          Gram.bytes ∘ Prod.fst :=
      fun _ => rfl
    rw [bytes, ← List.map_map]
    exact sorted.nodup.map Gram.bytes_injective
  · intro record member
    obtain ⟨entry, _, rfl⟩ := List.mem_map.mp member
    exact entry.1.head_bytes_ne_nul

/-- The entries of the table: the grams that were counted, with their numbers.
-/
theorem mem_trained_iff
    (methods : StrMethods) (packed : PackedLog)
    (lines : List (List Char)) (ofBytes : Bytes → F) (entry : Bytes × F) :
    let grams := trainingGrams methods lines
    entry ∈ (trainedRecords methods packed lines).map
        (GramRecord.entry ofBytes) ↔
      ∃ gram, gram ∈ grams ∧
        entry = (gram.bytes, ofBytes (packed.number grams gram)) := by
  intro grams
  have sorted := (tallies_countGrams methods lines).mostCommon
  constructor
  · intro member
    obtain ⟨record, isRecord, rfl⟩ := List.mem_map.mp member
    obtain ⟨⟨gram, count⟩, isCounted, rfl⟩ := List.mem_map.mp isRecord
    obtain ⟨positive, isCount⟩ := (sorted.mem_iff _ _).mp isCounted
    subst isCount
    exact ⟨gram, List.count_pos_iff.mp positive, rfl⟩
  · intro given
    obtain ⟨gram, member, rfl⟩ := given
    have counted :=
      (sorted.mem_iff gram _).mpr ⟨List.count_pos_iff.mpr member, rfl⟩
    exact
      List.mem_map.mpr ⟨_, List.mem_map.mpr ⟨_, counted, rfl⟩, rfl⟩

/-- Whatever the model is trained on, the loader ends with a table that yields
for every gram that was counted the number that the script computed, and the
default for all other strings, and every search in it ends. -/
theorem buildModel_loads
    (methods : StrMethods) (packed : PackedLog)
    (lines : List (List Char)) (arith : Arithmetic F)
    (ofBytes : Bytes → F) :
    let grams := trainingGrams methods lines
    ∃ table : NgramTable F,
      LoadsInto ofBytes (buildModel methods packed lines) table.slots ∧
        ∀ text : Bytes,
          (∃ pass,
              probe Prod.fst table.entries
                (ngramHome table.capacity text) text = some pass) ∧
            (∀ gram, gram ∈ grams → gram.bytes = text →
              ngramLogprob arith table text =
                ofBytes (packed.number grams gram)) ∧
            ((∀ gram, gram ∈ grams → gram.bytes ≠ text) →
              ngramLogprob arith table text = arith.decimal (-20) 0) := by
  intro grams
  obtain ⟨table, loads, holds⟩ :=
    exists_table_buildModel methods packed lines ofBytes
  have entries := mem_trained_iff methods packed lines ofBytes
  refine ⟨table, loads, ?_⟩
  intro text
  obtain ⟨ends, present, absent⟩ := ngramLogprob_of_holds arith holds text
  refine ⟨ends, ?_, ?_⟩
  · intro gram member isGram
    exact present _ ((entries _).mpr ⟨gram, member, rfl⟩) isGram
  · intro others
    apply absent
    intro entry member isText
    obtain ⟨gram, isCounted, rfl⟩ := (entries entry).mp member
    exact others gram isCounted isText

/-! ## A text of one line -/

/-- The methods on ASCII text. -/
def asciiMethods : StrMethods where
  isspace := fun c =>
    decide
      ((9 ≤ c.toNat ∧ c.toNat ≤ 13) ∨ (28 ≤ c.toNat ∧ c.toNat ≤ 32))
  lower := List.map Char.toLower
  isspace_ascii := fun _ _ => decide_eq_true_iff
  lower_ascii := fun _ _ => rfl

/-- The `float` of a whole number with a minus in front. -/
def packedMinus (n : Nat) : Bytes :=
  if n = 0 then
    [0, 0, 0, 0]
  else
    let exponent := n.log2
    let fraction := n * 2 ^ 23 / 2 ^ exponent - 2 ^ 23
    (bytes32 (2 ^ 31 + (127 + exponent) * 2 ^ 23 + fraction).toUInt32).reverse

/-- What is packed where the quotient is a power of two. -/
def packedPowers : PackedLog where
  pack := fun count whole => packedMinus (whole / count).log2
  size := by
    intro count whole
    rw [packedMinus]
    split
    · rfl
    · rfl

/-- The number that the bytes of a normal `float` or of zero stand for. -/
def binary32 : Bytes → Rat
  | [first, second, third, fourth] =>
      let bits := (word32 fourth third second first).toNat
      let exponent := bits / 2 ^ 23 % 256
      let size : Rat :=
        mkRat ((2 ^ 23 + bits % 2 ^ 23) * 2 ^ exponent : Nat) (2 ^ 150)
      if exponent = 0 then 0 else if bits < 2 ^ 31 then size else -size
  | _ => 0

/-- The line `abcde.com`. -/
def trainedText : List (List Char) :=
  [['a', 'b', 'c', 'd', 'e', '.', 'c', 'o', 'm', '\n']]

def gramAbcd : Gram :=
  ⟨⟨97, rfl⟩, ⟨98, rfl⟩, ⟨99, rfl⟩, ⟨100, rfl⟩⟩

theorem gramAbcd_counted :
    gramAbcd ∈ trainingGrams asciiMethods trainedText := by
  decide +kernel

/-- Each of the two grams has half of the smoothed counts. -/
theorem number_gramAbcd :
    packedPowers.number (trainingGrams asciiMethods trainedText) gramAbcd =
      [0, 0, 128, 191] := by
  decide +kernel

theorem buildModel_loads_abcde :
    ∃ table : NgramTable Rat,
      LoadsInto binary32 (buildModel asciiMethods packedPowers trainedText)
          table.slots ∧
        ngramLogprob (exactArithmetic id) table gramAbcd.bytes = -1 ∧
          ngramLogprob (exactArithmetic id) table [100, 99, 98, 97] =
            -20 := by
  obtain ⟨table, loads, lookup⟩ :=
    buildModel_loads asciiMethods packedPowers trainedText
      (exactArithmetic id) binary32
  refine ⟨table, loads, ?_, ?_⟩
  · rw [(lookup gramAbcd.bytes).2.1 gramAbcd gramAbcd_counted rfl,
      number_gramAbcd]
    decide +kernel
  · have others :
        ∀ gram, gram ∈ trainingGrams asciiMethods trainedText →
          gram.bytes ≠ [100, 99, 98, 97] := by
      decide +kernel
    rw [(lookup [100, 99, 98, 97]).2.2 others]
    decide +kernel

end DnsFirewall
