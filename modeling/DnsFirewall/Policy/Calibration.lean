import DnsFirewall.Policy.RealScore
import DnsFirewall.Policy.Training

/-!
# Calibrating the 4-gram score

`eval_4gram.py` reads the model file into a dictionary and averages the
log-probabilities of a domain, to recommend the bounds between which
`ngram_score_domain` normalises its own average.  The numbers in the file are
the same for both, but the script adds and divides them as `double`, the
firewall as `float`.  In exact arithmetic both have the same average.
-/

namespace DnsFirewall

open CString LinearProbing Tally

variable {F : Type}

/-! ## The script -/

/-- The character that stands for a byte, as `decode` with `errors="replace"`
gives it. -/
def decodeAscii (byte : UInt8) : Char :=
  if byte.toNat < 128 then Char.ofNat byte.toNat else Char.ofNat 65533

/-- The dictionary, with what was assigned last in front. -/
abbrev GramDict (F : Type) := List (List Char × F)

/-- The loop of `load_model`; a record that is cut off raises an exception. -/
def loadDict (ofBytes : Bytes → F) :
    Nat → Bytes → GramDict F → Option (GramDict F)
  | 0, _, table => some table
  | count + 1, file, table =>
      let rest := file.drop 4
      if rest.length < 4 then
        none
      else
        loadDict ofBytes count (rest.drop 4)
          (((file.take 4).map decodeAscii, ofBytes (rest.take 4)) :: table)

/-- `load_model`, with the content of the file. -/
def loadModel (ofBytes : Bytes → F) (file : Bytes) :
    Option (GramDict F) :=
  match readCount file with
  | none => none
  | some (count, rest) => loadDict ofBytes count.toNat rest []

def minLogprob : Int := -20

/-- `model.get(g, MIN_LOGPROB)`. -/
def GramDict.logprob (table : GramDict ℝ) (gram : Gram) : ℝ :=
  (table.lookup (gram.bytes.map decodeAscii)).getD minLogprob

/-- `avg_logprob` without rounding. -/
noncomputable def avgLogprob (methods : StrMethods) (table : GramDict ℝ)
    (domain : List Char) : Option ℝ :=
  let letters := sldLetters methods domain
  if letters.length < 4 then
    none
  else
    let logs := (gramsOf letters).map table.logprob
    some (logs.sum / logs.length)

/-! ## The letters of a domain -/

/-- Blanks have no letters, so those in front can go. -/
theorem filterMap_takeWhile_front
    {α β : Type} {goes : α → Bool} {pick : α → Option β} {front : List α}
    (blank : ∀ item, item ∈ front → goes item = true ∧ pick item = none)
    (rest : List α) :
    ((front ++ rest).takeWhile goes).filterMap pick =
      (rest.takeWhile goes).filterMap pick := by
  rw [List.takeWhile_append_of_pos fun item member => (blank item member).1,
    List.filterMap_append,
    List.filterMap_eq_nil_iff.mpr fun item member => (blank item member).2,
    List.nil_append]

theorem filterMap_takeWhile_back
    {α β : Type} {goes : α → Bool} {pick : α → Option β} {back : List α}
    (blank : ∀ item, item ∈ back → goes item = true ∧ pick item = none)
    (rest : List α) :
    ((rest ++ back).takeWhile goes).filterMap pick =
      (rest.takeWhile goes).filterMap pick := by
  rw [List.takeWhile_append]
  split
  · rename_i whole
    have all : rest.takeWhile goes = rest :=
      (List.takeWhile_prefix goes).eq_of_length whole
    have kept : back.takeWhile goes = back :=
      List.takeWhile_eq_self_iff.mpr fun item member => (blank item member).1
    rw [kept, all, List.filterMap_append,
      @List.filterMap_eq_nil_iff _ _ pick back |>.mpr
        fun item member => (blank item member).2,
      List.append_nil]
  · rfl

/-- A domain name as the firewall and the script have it. -/
structure AsciiName where
  bytes : Bytes
  ascii : ∀ byte, byte ∈ bytes → byte.toNat < 128

def AsciiName.text (name : AsciiName) : List Char :=
  name.bytes.map decodeAscii

theorem toNat_decodeAscii {byte : UInt8} (ascii : byte.toNat < 128) :
    (decodeAscii byte).toNat = byte.toNat := by
  rw [decodeAscii, if_pos ascii, Char.ofNat, dif_pos (Or.inl (by omega))]
  rfl

@[elab_as_elim]
theorem of_ascii
    {motive : UInt8 → Prop}
    (all : ∀ n : Fin 128, motive (UInt8.ofNat n.val)) (byte : UInt8)
    (ascii : byte.toNat < 128) :
    motive byte := by
  have here := all ⟨byte.toNat, ascii⟩
  rw [UInt8.ofNat_toNat] at here
  exact here

/-- The letter of a character, in either case. -/
theorem letterOf_decodeAscii
    {byte : UInt8} (ascii : byte.toNat < 128) :
    (letterOf (decodeAscii byte).toLower).map Subtype.val =
      if isLowerLetter (toLower byte) = true then some (toLower byte)
      else none := by
  exact of_ascii (by decide +kernel) byte ascii

theorem decodeAscii_ne_dot {byte : UInt8} (ascii : byte.toNat < 128) :
    decide (decodeAscii byte ≠ '.') = decide (byte ≠ 46) := by
  exact of_ascii (by decide +kernel) byte ascii

/-- What `strip` removes has no letters and no dot. -/
theorem StrMethods.blank_of_isspace
    (methods : StrMethods) {c : Char} (ascii : c.toNat < 128)
    (blank : methods.isspace c = true) :
    decide (c ≠ '.') = true ∧ letterOf c.toLower = none := by
  have code := (methods.isspace_ascii c ascii).mp blank
  have all :
      ∀ n : Fin 33, (Char.ofNat n.val ≠ '.') ∧
        letterOf (Char.ofNat n.val).toLower = none := by
    decide +kernel
  have here := all ⟨c.toNat, by omega⟩
  rw [Char.ofNat_toNat] at here
  exact ⟨decide_eq_true here.1, here.2⟩

/-- `strip` takes no letters from the first label. -/
theorem StrMethods.letters_strip
    (methods : StrMethods) {text : List Char}
    (ascii : ∀ c, c ∈ text → c.toNat < 128) :
    ((methods.strip text).takeWhile (· ≠ '.')).filterMap
        (letterOf ∘ Char.toLower) =
      (text.takeWhile (· ≠ '.')).filterMap (letterOf ∘ Char.toLower) := by
  have front :=
    @List.takeWhile_append_dropWhile _ methods.isspace text
  have back :=
    List.rdropWhile_append_rtakeWhile (p := methods.isspace)
      (l := text.dropWhile methods.isspace)
  have kept :=
    @filterMap_takeWhile_back _ _ (fun c => decide (c ≠ '.'))
      (letterOf ∘ Char.toLower)
      ((text.dropWhile methods.isspace).rtakeWhile methods.isspace)
      (by
        intro c member
        have whole : c ∈ text :=
          (List.dropWhile_suffix _).mem
            ((List.rtakeWhile_suffix _ _).mem member)
        exact
          methods.blank_of_isspace (ascii c whole)
            (List.mem_rtakeWhile_imp member))
      (methods.strip text)
  rw [StrMethods.strip, back] at kept
  rw [StrMethods.strip, ← kept]
  have passed :=
    @filterMap_takeWhile_front _ _ (fun c => decide (c ≠ '.'))
      (letterOf ∘ Char.toLower) (text.takeWhile methods.isspace)
      (by
        intro c member
        exact
          methods.blank_of_isspace
            (ascii c ((List.takeWhile_prefix _).mem member))
            (List.mem_takeWhile_imp member))
      (text.dropWhile methods.isspace)
  rw [front] at passed
  exact passed.symm

/-- The script looks at the letters that `ngram_score_domain` collects. -/
theorem sldLetters_text (methods : StrMethods) (name : AsciiName) :
    (sldLetters methods name.text).map Subtype.val =
      ((firstLabel name.bytes).map toLower).filter isLowerLetter := by
  have ascii : ∀ c, c ∈ name.text → c.toNat < 128 := by
    intro c member
    obtain ⟨byte, isByte, rfl⟩ := List.mem_map.mp member
    have small := name.ascii byte isByte
    rw [toNat_decodeAscii small]
    exact small
  have label :
      ∀ c, c ∈ (methods.strip name.text).takeWhile (· ≠ '.') →
        c.toNat < 128 := by
    intro c member
    apply ascii
    exact
      (List.dropWhile_suffix _).mem
        ((List.rdropWhile_prefix _ _).mem
          ((List.takeWhile_prefix _).mem member))
  rw [sldLetters, methods.lower_ascii _ label, List.filterMap_map,
    methods.letters_strip ascii, AsciiName.text]
  obtain ⟨bytes, small⟩ := name
  simp only
  clear ascii label
  induction bytes with
  | nil => rfl
  | cons byte bytes inductionHypothesis =>
      have isSmall := small byte List.mem_cons_self
      have rest :=
        inductionHypothesis fun other member =>
          small other (List.mem_cons_of_mem byte member)
      have dot := decodeAscii_ne_dot isSmall
      have letter := letterOf_decodeAscii isSmall
      rw [firstLabel, List.map_cons, List.takeWhile_cons,
        List.takeWhile_cons, dot]
      rw [firstLabel] at rest
      split
      · rw [List.filterMap_cons, List.map_cons, List.filter_cons, ← rest,
          Function.comp_apply]
        cases found : letterOf (decodeAscii byte).toLower with
        | none =>
            rw [found] at letter
            split at letter
            · cases letter
            · rename_i other
              rw [if_neg other]
        | some isLetter =>
            rw [found] at letter
            split at letter
            · rename_i lower
              rw [if_pos lower, ← Option.some.inj letter]
              rfl
            · cases letter
      · rfl

/-! ## The dictionary -/

/-- An entry of the dictionary. -/
def GramRecord.assigned (ofBytes : Bytes → F) (record : GramRecord) :
    List Char × F :=
  (record.gram.map decodeAscii, ofBytes record.logprob)

/-- The script reads a record as the loader does. -/
theorem loadDict_succ
    {ofBytes : Bytes → F} {file rest gram : Bytes} {value : F}
    (read : readRecord ofBytes file = some ((gram, value), rest))
    (count : Nat) (table : GramDict F) :
    loadDict ofBytes (count + 1) file table =
      loadDict ofBytes count rest ((gram.map decodeAscii, value) :: table) := by
  rw [readRecord] at read
  split at read
  · cases read
  · simp only at read
    split at read
    · cases read
    · rename_i whole
      cases read
      rw [loadDict]
      exact if_neg whole

theorem loadDict_flatMap
    (ofBytes : Bytes → F) (records : List GramRecord)
    (trailing : Bytes) (table : GramDict F) :
    loadDict ofBytes records.length
        (records.flatMap GramRecord.bytes ++ trailing) table =
      some ((records.map (GramRecord.assigned ofBytes)).reverse ++
        table) := by
  induction records generalizing table with
  | nil => rfl
  | cons record records inductionHypothesis =>
      rw [List.length_cons, List.flatMap_cons, List.append_assoc,
        loadDict_succ (readRecord_bytes ofBytes record _),
        inductionHypothesis, List.map_cons, List.reverse_cons,
        List.append_assoc]
      rfl

theorem loadModel_modelFile
    (ofBytes : Bytes → F) (records : List GramRecord)
    (few : records.length < 4294967296) :
    loadModel ofBytes (modelFile records []) =
      some (records.map (GramRecord.assigned ofBytes)).reverse := by
  have same : records.length.toUInt32.toNat = records.length :=
    Nat.mod_eq_of_lt few
  rw [loadModel, readCount_modelFile]
  simp only [same]
  rw [loadDict_flatMap, List.append_nil]

/-- In a dictionary without duplicates a search finds what is there. -/
theorem lookup_of_mem
    {κ β : Type} [BEq κ] [LawfulBEq κ] {table : List (κ × β)}
    (nodup : (table.map Prod.fst).Nodup) {key : κ} {value : β}
    (member : (key, value) ∈ table) :
    table.lookup key = some value := by
  induction table with
  | nil => cases member
  | cons entry table inductionHypothesis =>
      rw [List.map_cons, List.nodup_cons] at nodup
      rw [List.lookup_cons]
      rcases List.mem_cons.mp member with here | later
      · subst here
        rw [beq_self_eq_true]
      · have other : (key == entry.1) = false := by
          rw [beq_eq_false_iff_ne]
          intro same
          subst same
          exact nodup.1 (List.mem_map.mpr ⟨_, later, rfl⟩)
        rw [other]
        exact inductionHypothesis nodup.2 later

theorem decodeAscii_injective
    {left right : UInt8} (leftAscii : left.toNat < 128)
    (rightAscii : right.toNat < 128)
    (same : decodeAscii left = decodeAscii right) :
    left = right := by
  apply UInt8.toNat_inj.mp
  rw [← toNat_decodeAscii leftAscii, ← toNat_decodeAscii rightAscii, same]

theorem Letter.ascii (letter : Letter) : letter.val.toNat < 128 := by
  have lower := letter.property
  rw [isLowerLetter, Bool.and_eq_true, decide_eq_true_eq,
    decide_eq_true_eq, UInt8.le_iff_toNat_le,
    UInt8.le_iff_toNat_le] at lower
  have last : (122 : UInt8).toNat = 122 := rfl
  omega

/-- Different grams have different keys. -/
theorem Gram.key_injective :
    Function.Injective fun gram : Gram => gram.bytes.map decodeAscii := by
  intro ⟨_, _, _, _⟩ ⟨_, _, _, _⟩ same
  simp only [Gram.bytes, List.map_cons, List.map_nil, List.cons.injEq,
    and_true] at same
  obtain ⟨first, second, third, fourth⟩ := same
  have letters :
      ∀ left right : Letter,
        decodeAscii left.val = decodeAscii right.val → left = right :=
    fun left right equal =>
      Subtype.ext (decodeAscii_injective left.ascii right.ascii equal)
  rw [Gram.mk.injEq]
  exact
    ⟨letters _ _ first, letters _ _ second, letters _ _ third,
      letters _ _ fourth⟩

/-- The dictionary of the records that were trained. -/
def trainedDict (methods : StrMethods) (packed : PackedLog)
    (lines : List (List Char)) (ofBytes : Bytes → F) : GramDict F :=
  ((trainedRecords methods packed lines).map
    (GramRecord.assigned ofBytes)).reverse

theorem trainedDict_logprob
    (methods : StrMethods) (packed : PackedLog)
    (lines : List (List Char)) (ofBytes : Bytes → ℝ) (gram : Gram) :
    let grams := trainingGrams methods lines
    (trainedDict methods packed lines ofBytes).logprob gram =
      if gram ∈ grams then ofBytes (packed.number grams gram) else -20 := by
  intro grams
  have sorted := (tallies_countGrams methods lines).mostCommon
  have nodup :
      ((trainedDict methods packed lines ofBytes).map Prod.fst).Nodup := by
    rw [trainedDict, List.map_reverse, List.nodup_reverse, trainedRecords,
      List.map_map, List.map_map]
    have keys :
        ∀ whole,
          (Prod.fst ∘ GramRecord.assigned ofBytes) ∘ packed.record whole =
            (fun gram : Gram => gram.bytes.map decodeAscii) ∘ Prod.fst :=
      fun _ => rfl
    rw [keys, ← List.map_map]
    exact sorted.nodup.map Gram.key_injective
  rw [GramDict.logprob]
  split
  · rename_i member
    have counted :=
      (sorted.mem_iff gram _).mpr ⟨List.count_pos_iff.mpr member, rfl⟩
    have assigned :
        (gram.bytes.map decodeAscii, ofBytes (packed.number grams gram)) ∈
          trainedDict methods packed lines ofBytes :=
      List.mem_reverse.mpr
        (List.mem_map.mpr ⟨_, List.mem_map.mpr ⟨_, counted, rfl⟩, rfl⟩)
    rw [lookup_of_mem nodup assigned]
    rfl
  · rename_i missing
    have absent :
        (trainedDict methods packed lines ofBytes).lookup
            (gram.bytes.map decodeAscii) = none := by
      rw [List.lookup_eq_none_iff]
      intro entry member
      obtain ⟨record, isRecord, rfl⟩ :=
        List.mem_map.mp (List.mem_reverse.mp member)
      obtain ⟨⟨other, count⟩, isCounted, rfl⟩ := List.mem_map.mp isRecord
      obtain ⟨positive, isCount⟩ := (sorted.mem_iff _ _).mp isCounted
      rw [isCount] at positive
      rw [bne_iff_ne]
      intro same
      have isOther := Gram.key_injective same
      rw [isOther] at missing
      exact missing (List.count_pos_iff.mp positive)
    rw [absent, Option.getD_none, minLogprob]
    norm_num

/-! ## The averages -/

theorem take_four
    {α : Type} (items : List α) {i : Nat} (inside : i + 3 < items.length) :
    (items.drop i).take 4 =
      [items[i], items[i + 1], items[i + 2], items[i + 3]] := by
  rw [List.drop_eq_getElem_cons (by omega),
    List.drop_eq_getElem_cons (by omega),
    List.drop_eq_getElem_cons (by omega),
    List.drop_eq_getElem_cons inside]
  rfl

/-- The slices of the script are the grams that `ngram_score_domain` looks up.
-/
theorem bytes_gramsOf
    (letters : List Letter) (many : ¬ letters.length < 4) :
    (gramsOf letters).map Gram.bytes =
      (List.range (letters.length - 4 + 1)).map fun i =>
        ((letters.map Subtype.val).drop i).take 4 := by
  have size : letters.length - 4 + 1 = letters.length - 3 := by omega
  rw [size]
  apply List.ext_getElem
  · simp [gramsOf]
  · intro i left right
    rw [List.length_map, List.length_range] at right
    have inside : i + 3 < (letters.map Subtype.val).length := by
      rw [List.length_map]
      omega
    simp only [List.getElem_map, List.getElem_range, take_four _ inside]
    simp [gramsOf, Gram.bytes]

/-- The script reads the file that was trained as it was written. -/
theorem loadModel_buildModel
    (methods : StrMethods) (packed : PackedLog)
    (lines : List (List Char)) (ofBytes : Bytes → F) :
    loadModel ofBytes (buildModel methods packed lines) =
      some (trainedDict methods packed lines ofBytes) := by
  have few := length_trainedRecords_le methods packed lines
  rw [buildModel_eq_trainedRecords, loadModel_modelFile ofBytes _ (by omega)]
  rfl

/-- The loader and the script have the same number for every gram. -/
theorem exists_table_logprob
    (methods : StrMethods) (packed : PackedLog)
    (lines : List (List Char)) (ofBytes : Bytes → ℝ) :
    ∃ table : NgramTable ℝ,
      LoadsInto ofBytes (buildModel methods packed lines) table.slots ∧
        ∀ gram : Gram,
          ngramLogprob realArithmetic table gram.bytes =
            (trainedDict methods packed lines ofBytes).logprob gram := by
  obtain ⟨table, loads, holds⟩ :=
    exists_table_buildModel methods packed lines ofBytes
  have entries := mem_trained_iff methods packed lines ofBytes
  refine ⟨table, loads, ?_⟩
  intro gram
  obtain ⟨_, present, absent⟩ :=
    ngramLogprob_of_holds realArithmetic holds gram.bytes
  rw [trainedDict_logprob]
  split
  · rename_i member
    exact present _ ((entries _).mpr ⟨gram, member, rfl⟩) rfl
  · rename_i missing
    have default : realArithmetic.decimal (-20) 0 = -20 := by
      simp [decimal_real]
    rw [← default]
    apply absent
    intro entry member isGram
    obtain ⟨other, isCounted, rfl⟩ := (entries entry).mp member
    rw [Gram.bytes_injective isGram] at isCounted
    exact missing isCounted

/-- The two averages, of the same numbers in the same order. -/
theorem sum_gramsOf
    {logprob : Gram → ℝ} {lookup : Bytes → ℝ}
    (same : ∀ gram : Gram, lookup gram.bytes = logprob gram)
    {letters : List Letter} (many : ¬ letters.length < 4) :
    ((gramsOf letters).map logprob).length = letters.length - 4 + 1 ∧
      ((gramsOf letters).map logprob).sum =
        (List.range (letters.length - 4 + 1)).foldl
          (fun sum i =>
            sum + lookup (((letters.map Subtype.val).drop i).take 4))
          0 := by
  have slices := bytes_gramsOf letters many
  have count := congrArg List.length slices
  rw [List.length_map, List.length_map, List.length_range] at count
  refine ⟨(List.length_map _).trans count, ?_⟩
  have logs :
      (gramsOf letters).map logprob =
        (List.range (letters.length - 4 + 1)).map fun i =>
          lookup (((letters.map Subtype.val).drop i).take 4) := by
    have mapped := congrArg (List.map lookup) slices
    rw [List.map_map, List.map_map] at mapped
    refine Eq.trans ?_ mapped
    apply List.map_congr_left
    intro gram _
    exact (same gram).symm
  rw [logs, List.sum_eq_foldl, List.foldl_map]

/-- Whatever the model was trained on, the script and the firewall read the
same numbers from the file, and in exact arithmetic the firewall normalises for
every domain the average that the script computes, and its score is zero where
there is none. -/
theorem ngramScoreDomain_eq_avgLogprob
    (methods : StrMethods) (packed : PackedLog)
    (lines : List (List Char)) (ofBytes : Bytes → ℝ) (threshold : ℝ) :
    let file := buildModel methods packed lines
    ∃ (dict : GramDict ℝ) (table : NgramTable ℝ),
      loadModel ofBytes file = some dict ∧
        LoadsInto ofBytes file table.slots ∧
          ∀ name : AsciiName,
            ngramScoreDomain (realModel (some table) threshold) name.bytes =
              match avgLogprob methods dict name.text with
              | none => 0
              | some avg => ngramNorm avg := by
  intro file
  obtain ⟨table, loads, same⟩ :=
    exists_table_logprob methods packed lines ofBytes
  refine
    ⟨trainedDict methods packed lines ofBytes, table,
      loadModel_buildModel methods packed lines ofBytes, loads, ?_⟩
  intro name
  have letters := sldLetters_text methods name
  rw [ngramScoreDomain_real, avgLogprob, lettersOf, ← letters]
  simp only [List.length_map]
  split
  · rfl
  · rename_i many
    obtain ⟨count, sum⟩ := sum_gramsOf same many
    rw [List.length_map] at count
    simp only [count, sum]

/-- The name `abcdxyz.org`, of which only the first gram was counted. -/
def nameAbcdxyz : AsciiName where
  bytes := [97, 98, 99, 100, 120, 121, 122, 46, 111, 114, 103]
  ascii := by decide +kernel

/-- Its letters are `abcdxyz`, and its other grams were not counted. -/
theorem grams_abcdxyz :
    ∃ other, ¬ (sldLetters asciiMethods nameAbcdxyz.text).length < 4 ∧
      gramsOf (sldLetters asciiMethods nameAbcdxyz.text) =
          gramAbcd :: other ∧
        other.length = 3 ∧
          ∀ gram, gram ∈ other →
            gram ∉ trainingGrams asciiMethods trainedText := by
  refine
    ⟨(gramsOf (sldLetters asciiMethods nameAbcdxyz.text)).tail, ?_, ?_, ?_, ?_⟩
  · decide +kernel
  · decide +kernel
  · decide +kernel
  · decide +kernel

/-- The average of -1 and three times -20. -/
theorem avgLogprob_abcdxyz :
    avgLogprob asciiMethods
        (trainedDict asciiMethods packedPowers trainedText
          fun bytes => (binary32 bytes : ℝ))
        nameAbcdxyz.text =
      some (-61 / 4) := by
  obtain ⟨other, many, grams, three, unseen⟩ := grams_abcdxyz
  have one : binary32 [0, 0, 128, 191] = -1 := by
    decide +kernel
  have first :
      (trainedDict asciiMethods packedPowers trainedText
          fun bytes => (binary32 bytes : ℝ)).logprob gramAbcd = -1 := by
    rw [trainedDict_logprob, if_pos gramAbcd_counted, number_gramAbcd, one]
    norm_num
  have rest :
      other.map
          (trainedDict asciiMethods packedPowers trainedText
            fun bytes => (binary32 bytes : ℝ)).logprob =
        List.replicate 3 (-20) := by
    rw [← three, ← List.map_const']
    apply List.map_congr_left
    intro gram member
    rw [trainedDict_logprob, if_neg (unseen gram member)]
  rw [avgLogprob]
  simp only [if_neg many, grams, List.map_cons, first, rest]
  norm_num

/-- The firewall's score of the name, from the table of the trained file. -/
theorem ngramScoreDomain_eq_avgLogprob_abcdxyz :
    let ofBytes : Bytes → ℝ := fun bytes => binary32 bytes
    let file := buildModel asciiMethods packedPowers trainedText
    ∃ table : NgramTable ℝ,
      LoadsInto ofBytes file table.slots ∧
        ngramScoreDomain (realModel (some table) 0) nameAbcdxyz.bytes =
          491 / 966 := by
  intro ofBytes file
  obtain ⟨dict, table, read, loads, scores⟩ :=
    ngramScoreDomain_eq_avgLogprob asciiMethods packedPowers trainedText
      ofBytes 0
  refine ⟨table, loads, ?_⟩
  rw [loadModel_buildModel, Option.some.injEq] at read
  rw [scores, ← read, avgLogprob_abcdxyz]
  simp only [ngramNorm]
  norm_num

end DnsFirewall
