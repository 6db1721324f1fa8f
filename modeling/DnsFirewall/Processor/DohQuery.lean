import DnsFirewall.Processor.Doh
import DnsFirewall.Wire.Acceptance
import DnsFirewall.Wire.NameDecoder

/-!
# The query that DoH builds

`build_dns_query` writes the dot-separated parts of the name behind their
lengths, of one byte each, and compares no length with that of a label.  A part
of more than 63 bytes makes the length byte a mistake or a pointer; more than
twenty parts, or more octets than a name has, are written as well.  What comes
out is the query that was asked for exactly when none of this happens.
-/

namespace DnsFirewall

open CString Cursor BigEndian FixedArrays

/-- A name that `extract_param` can return into `name`. -/
structure QueryName where
  text : Bytes
  returned :
    ∃ uri out,
      extractParam uri paramName .name = .ok (some out) ∧
        content out.elements = text

/-- The non-empty parts between the dots. -/
def nameParts (name : Bytes) : List Bytes :=
  (name.splitOn 46).filter (· ≠ [])

/-- The names of the types and their numbers. -/
def typeRegistry : List (Bytes × UInt16) :=
  [([65], 1), ([78, 83], 2), ([67, 78, 65, 77, 69], 5), ([77, 88], 15),
    ([84, 88, 84], 16), ([65, 65, 65, 65], 28)]

/-- What the type strings ask for: the names of types are given in any case,
and what other strings ask for is left open. -/
structure TypeStrings where
  number : Bytes → Option UInt16
  named :
    ∀ entry, entry ∈ typeRegistry →
      ∀ text, strcasecmpEq text entry.1 = true → number text = some entry.2

/-- The packet parses to one question of these labels and this type, and no
byte is left behind it. -/
def AsksOnly (packet : Bytes) (labels : List Bytes) (qtype : UInt16) :
    Prop :=
  ∃ message question answersAt authoritiesAt additionalsAt,
    dnsParseMessage packet = .ok message ∧
      ParsesWhole packet message answersAt authoritiesAt additionalsAt ∧
        message.questions = [question] ∧ Decodes packet 12 labels ∧
          question.qname = spelled (nameText labels) ∧
            question.qtype = qtype

/-- What is built for the name and the type string asks for them. -/
def BuildsAsked (types : TypeStrings) (name typeStr : Bytes) : Prop :=
  ∃ out qtype,
    buildDnsQuery name typeStr = .ok out ∧
      types.number typeStr = some qtype ∧
        AsksOnly out.elements (nameParts name) qtype

/-- Every label is short, there are at most twenty, and the name buffer of the
parser has room for them. -/
structure Askable (labels : List Bytes) : Prop where
  short : ∀ label, label ∈ labels → label.length ≤ dnsMaxLabelLen
  few : labels.length ≤ 20
  fits : (nameText labels).length < dnsMaxNameLen

/-- The type string is one that `build_dns_query` knows. -/
def KnownType (typeStr : Bytes) : Prop :=
  ∃ entry, entry ∈ queryTypes ∧ strcasecmpEq typeStr entry.1 = true

/-! ## What is written -/

theorem dohLabels_eq_write
    (labels : List Bytes) (out : DohFilled .dnsQuery) :
    dohLabels out labels = out.write (labelBytes (labels.filter (· ≠ []))) := by
  induction labels generalizing out with
  | nil => exact (Filled.write_nil out).symm
  | cons label labels inductionHypothesis =>
      rw [dohLabels]
      by_cases empty : label = []
      · rw [if_pos empty, inductionHypothesis,
          List.filter_cons_of_neg (by simpa using empty)]
      · rw [if_neg empty, List.filter_cons_of_pos (by simpa using empty),
          labelBytes]
        simp only [inductionHypothesis, Filled.write_write,
          List.singleton_append]

/-- A name of at most 255 characters is copied whole. -/
theorem copyName_content
    {name : Bytes} (short : name.length ≤ 255)
    (noNul : ∀ character, character ∈ name → character ≠ 0) :
    ∃ tmp, copyName name = .ok tmp ∧ content tmp.elements = name := by
  have whole : boundedCopy DohArray.tmp.size name = name :=
    boundedCopy_eq_self (Nat.lt_succ_of_le short)
  have size : DohArray.tmp.size = 256 := rfl
  have fits :
      (name ++ List.replicate (DohArray.tmp.size - 1 - name.length) 0).length <
        DohArray.tmp.size := by
    rw [List.length_append, List.length_replicate]
    omega
  refine ⟨Filled.ended _ 0 fits, ?_, ?_⟩
  · rw [copyName, whole]
    exact Filled.write_ended 0 fits
  · rw [Filled.elements_ended, List.append_assoc, ← List.replicate_succ',
      List.replicate_succ]
    exact content_append_cons noNul _

/-- The bytes of the question behind the name. -/
def questionEnd (qtype : UInt16) : Bytes :=
  bytes16 qtype ++ [0, 1]

/-- The packet that is built, as its header, its name and the rest of its
question. -/
theorem buildDnsQuery_elements
    {name : Bytes} (short : name.length ≤ 255)
    (noNul : ∀ character, character ∈ name → character ≠ 0)
    (typeStr : Bytes) :
    ∃ out,
      buildDnsQuery name typeStr = .ok out ∧
        out.elements =
          builtHeader ++
            (encodeName (nameParts name) ++
              questionEnd (queryType typeStr)) := by
  obtain ⟨out, built⟩ := buildDnsQuery_total name typeStr
  refine ⟨out, built, ?_⟩
  obtain ⟨tmp, copied, same⟩ := copyName_content short noNul
  have joined :
      buildDnsQuery name typeStr =
        (Filled.empty : DohFilled .dnsQuery).write
          (builtHeader ++
            (encodeName (nameParts name) ++
              questionEnd (queryType typeStr))) := by
    rw [buildDnsQuery, copied]
    change (_ >>= fun out => dohLabels out _ >>= _) = _
    simp only [same, dohLabels_eq_write, Filled.write_write]
    rw [encodeName, nameParts, questionEnd]
    simp only [List.append_assoc, List.cons_append, List.nil_append]
  rw [joined, Filled.write] at built
  split at built
  · cases built
    rw [Filled.elements_extend, Filled.elements_empty, List.nil_append]
  · cases built

/-- The parts of a name are not empty, have no dot, and are not longer than
the name. -/
theorem mem_nameParts
    {name part : Bytes} (member : part ∈ nameParts name) :
    0 < part.length ∧ part.length ≤ name.length := by
  obtain ⟨inPieces, notEmpty⟩ := List.mem_filter.mp member
  have nonempty : part ≠ [] := by simpa using notEmpty
  refine ⟨List.length_pos_iff.mpr nonempty, ?_⟩
  have sum := Lines.sum_length_splitOn 46 name
  obtain ⟨front, back, shape⟩ := List.append_of_mem inPieces
  rw [shape, List.map_append, List.map_cons, List.sum_append,
    List.sum_cons] at sum
  omega

/-! ## What is read -/

/-- The first label of 1 to 255 bytes of a name at its place that does not end
like a pointer is short, and the rest of the name is at its place. -/
theorem inPlace_of_cons
    {label : Bytes} {labels : List Bytes} {before after : Bytes} {stop : Nat}
    (nonempty : 0 < label.length) (short : label.length ≤ 255)
    (far : before.length + 2 < stop)
    (inPlace :
      InPlace (before ++ (encodeName (label :: labels) ++ after))
        before.length stop) :
    label.length ≤ dnsMaxLabelLen ∧
      InPlace
        (before ++ label.length.toUInt8 :: label ++
          (encodeName labels ++ after))
        (before ++ label.length.toUInt8 :: label).length stop := by
  have lengthByte : label.length.toUInt8.toNat = label.length :=
    UInt8.toNat_ofNat_of_lt' (Nat.lt_succ_of_le short)
  have here :
      (before ++ (encodeName (label :: labels) ++ after))[before.length]? =
        some label.length.toUInt8 := by
    rw [encodeName_cons]
    simp
  have shape :
      before ++ (encodeName (label :: labels) ++ after) =
        before ++ label.length.toUInt8 :: label ++
          (encodeName labels ++ after) := by
    rw [encodeName_cons]
    simp only [List.append_assoc, List.cons_append]
  have place :
      (before ++ label.length.toUInt8 :: label).length =
        before.length + 1 + label.length := by
    rw [List.length_append, List.length_cons]
    omega
  rw [← shape, place]
  generalize label.length.toUInt8 = len at lengthByte here
  cases inPlace with
  | root zero =>
      rw [here] at zero
      cases zero
      rw [UInt8.toNat_zero] at lengthByte
      exact absurd lengthByte (Nat.ne_of_lt nonempty)
  | label there positive small next =>
      rw [here] at there
      cases there
      rw [lengthByte] at small next
      exact ⟨Nat.le_of_lt_succ small, next⟩
  | pointer there high => exact absurd far (Nat.lt_irrefl _)

/-- A name at its place, of labels of 1 to 255 bytes, that ends behind its
root byte has short labels only: a longer one has no label's length, or that
of a pointer, and a pointer ends the name at once. -/
theorem short_of_inPlace
    {labels : List Bytes} {before after : Bytes}
    (sizes :
      ∀ label, label ∈ labels → 0 < label.length ∧ label.length ≤ 255)
    (inPlace :
      InPlace (before ++ (encodeName labels ++ after)) before.length
        (before.length + (encodeName labels).length)) :
    ∀ label, label ∈ labels → label.length ≤ dnsMaxLabelLen := by
  induction labels generalizing before with
  | nil =>
      intro label member
      cases member
  | cons label labels inductionHypothesis =>
      obtain ⟨nonempty, short⟩ := sizes label List.mem_cons_self
      have root : 0 < (encodeName labels).length := by
        rw [encodeName_length]
        omega
      have stops :
          before.length + (encodeName (label :: labels)).length =
            (before ++ label.length.toUInt8 :: label).length +
              (encodeName labels).length := by
        rw [encodeName_cons, List.length_cons, List.length_append,
          List.length_append, List.length_cons]
        omega
      have far :
          before.length + 2 <
            before.length + (encodeName (label :: labels)).length := by
        rw [encodeName_cons, List.length_cons, List.length_append]
        omega
      obtain ⟨small, next⟩ := inPlace_of_cons nonempty short far inPlace
      rw [stops] at next
      have later :=
        inductionHypothesis
          (fun other member =>
            sizes other (List.mem_cons_of_mem label member))
          next
      intro other member
      rcases List.mem_cons.mp member with same | inTail
      · rw [same]
        exact small
      · exact later other inTail

/-- The name in front of the question's end is read when it is askable. -/
theorem readName_of_askable
    {labels : List Bytes} (nonempty : ∀ label, label ∈ labels → 0 < label.length)
    (askable : Askable labels) (before after : Bytes) :
    readName (before ++ (encodeName labels ++ after)) dnsMaxNameLen
        before.length =
      .ok
        (spelled (nameText labels),
          before.length + (encodeName labels).length) := by
  have wire : ∀ label, label ∈ labels → WireLabel label :=
    fun label member => ⟨nonempty label member, askable.short label member⟩
  have few := askable.few
  have fits := askable.fits
  by_cases empty : labels = []
  · subst empty
    rw [readName, readNamePasses, encodeName, labelBytes, List.nil_append,
      List.singleton_append, readNameLoop, nameStep_root]
    rfl
  · have text : nameText labels ≠ [] := by
      cases labels with
      | nil => exact absurd rfl empty
      | cons label labels => simp [nameText]
    have read :=
      readNameLoop_encoded dnsMaxNameLen labels readNamePasses before after []
        wire (Nat.lt_succ_of_le few) (by simpa using fits)
        (by simpa using List.length_pos_iff.mpr text)
    rw [readName, read, spelled, if_neg text, List.nil_append]

/-- A name that is read whole in front of the question's end is askable. -/
theorem askable_of_readName
    {labels : List Bytes} {before after name : Bytes}
    (sizes :
      ∀ label, label ∈ labels → 0 < label.length ∧ label.length ≤ 255)
    (read :
      readName (before ++ (encodeName labels ++ after)) dnsMaxNameLen
          before.length =
        .ok (name, before.length + (encodeName labels).length)) :
    Askable labels := by
  obtain ⟨_, _, _, inPlace⟩ := decodes_of_readName read
  have short := short_of_inPlace sizes inPlace
  have wire : ∀ label, label ∈ labels → WireLabel label :=
    fun label member => ⟨(sizes label member).1, short label member⟩
  refine ⟨short, ?_, ?_⟩
  · by_contra crowded
    have refused :=
      readNameLoop_crowded dnsMaxNameLen labels readNamePasses before after
        [] none wire (Nat.lt_of_not_le crowded)
    rw [readName, refused] at read
    cases read
  · by_contra full
    have refused :=
      readNameLoop_full dnsMaxNameLen labels readNamePasses before after []
        none wire (by decide) (by simpa using full)
    rw [readName, refused] at read
    cases read

theorem decodes_encodeName
    {labels : List Bytes} (wire : ∀ label, label ∈ labels → WireLabel label)
    (before after : Bytes) :
    Decodes (before ++ (encodeName labels ++ after)) before.length labels := by
  induction labels generalizing before with
  | nil =>
      apply Decodes.root
      simp [encodeName, labelBytes]
  | cons label labels inductionHypothesis =>
      have isLabel := wire label List.mem_cons_self
      have lengthByte := length_toUInt8_toNat isLabel.short
      have short : label.length < 64 := Nat.lt_succ_of_le isLabel.short
      have shape :
          before ++ (encodeName (label :: labels) ++ after) =
            (before ++ label.length.toUInt8 :: label) ++
              (encodeName labels ++ after) := by
        rw [encodeName_cons]
        simp only [List.append_assoc, List.cons_append]
      have place :
          before.length + 1 + label.length.toUInt8.toNat =
            (before ++ label.length.toUInt8 :: label).length := by
        rw [lengthByte, List.length_append, List.length_cons]
        omega
      have here :
          (before ++ (encodeName (label :: labels) ++ after))[before.length]? =
            some label.length.toUInt8 := by
        rw [encodeName_cons]
        simp
      have body :
          ((before ++ (encodeName (label :: labels) ++ after)).drop
                (before.length + 1)).take label.length.toUInt8.toNat =
            label := by
        rw [encodeName_cons, List.cons_append, ← List.drop_drop,
          List.drop_left' rfl, List.drop_one, List.tail_cons, lengthByte,
          List.append_assoc, List.take_left' rfl]
      have later :=
        inductionHypothesis
          (fun other member => wire other (List.mem_cons_of_mem label member))
          (before ++ label.length.toUInt8 :: label)
      rw [← shape, ← place] at later
      have inside :
          before.length + 1 + label.length.toUInt8.toNat ≤
            (before ++ (encodeName (label :: labels) ++ after)).length := by
        rw [place, shape]
        exact (List.prefix_append _ _).length_le
      have decodes :=
        Decodes.label here (by rw [lengthByte]; exact isLabel.nonempty)
          (by rw [lengthByte]; exact short) inside later
      rw [body] at decodes
      exact decodes

/-! ## The packet -/

/-- The packet of a query. -/
def builtPacket (labels : List Bytes) (qtype : UInt16) : Bytes :=
  builtHeader ++ (encodeName labels ++ questionEnd qtype)

theorem builtPacket_length (labels : List Bytes) (qtype : UInt16) :
    (builtPacket labels qtype).length =
      builtHeader.length + (encodeName labels).length + 4 := by
  simp [builtPacket, questionEnd, Nat.add_assoc]

theorem readHeader_builtPacket (labels : List Bytes) (qtype : UInt16) :
    readHeader (builtPacket labels qtype) =
      .ok ⟨1, 256, 1, 0, 0, 0⟩ :=
  readHeader_headerBytes 1 256 1 0 0 0 _

/-- The type stands behind the name. -/
theorem readU16_builtPacket (labels : List Bytes) (qtype : UInt16) :
    readU16 (builtPacket labels qtype)
          (builtHeader.length + (encodeName labels).length) =
        .ok qtype ∧
      readU16 (builtPacket labels qtype)
          (builtHeader.length + (encodeName labels).length + 2) =
        .ok 1 := by
  have shape :
      builtPacket labels qtype =
        (builtHeader ++ encodeName labels) ++ questionEnd qtype := by
    rw [builtPacket, List.append_assoc]
  have place :
      builtHeader.length + (encodeName labels).length =
        (builtHeader ++ encodeName labels).length := by
    rw [List.length_append]
  have readType := readU16_append_right (builtHeader ++ encodeName labels)
    (questionEnd qtype) 0
  have readClass := readU16_append_right (builtHeader ++ encodeName labels)
    (questionEnd qtype) 2
  rw [shape, place]
  rw [Nat.add_zero] at readType
  rw [readType, readClass]
  refine ⟨?_, ?_⟩
  · simp [readU16, questionEnd, bytes16, bind, Except.bind, pure,
      Except.pure]
  · rfl

/-- The question is read to the end of the packet when its name is read to its
root byte. -/
theorem readQuestion_builtPacket_iff
    {labels : List Bytes} {qtype : UInt16} {question : DnsQuestion} :
    readQuestion (builtPacket labels qtype) 12 =
        .ok (question, (builtPacket labels qtype).length) ↔
      readName (builtPacket labels qtype) dnsMaxNameLen 12 =
          .ok
            (question.qname,
              builtHeader.length + (encodeName labels).length) ∧
        question.qtype = qtype ∧ question.qclass = 1 := by
  obtain ⟨readsType, readsClass⟩ := readU16_builtPacket labels qtype
  have size := builtPacket_length labels qtype
  constructor
  · intro read
    obtain ⟨middle, readsName, alsoType, alsoClass, stop⟩ :=
      readQuestion_eq_ok read
    have atEnd :
        middle = builtHeader.length + (encodeName labels).length := by
      omega
    subst atEnd
    rw [readsType] at alsoType
    rw [readsClass] at alsoClass
    exact
      ⟨readsName, (Except.ok.inj alsoType).symm,
        (Except.ok.inj alsoClass).symm⟩
  · intro given
    obtain ⟨readsName, sameType, sameClass⟩ := given
    have inside :
        ¬ (builtPacket labels qtype).length <
          builtHeader.length + (encodeName labels).length + 4 := by
      omega
    rw [readQuestion, readsName]
    simp only [bind, Except.bind]
    rw [if_neg inside, readsType, readsClass, size, ← sameType, ← sameClass]
    rfl

/-- What a packet that has one question and nothing else says of it. -/
theorem askable_of_asksOnly
    {labels : List Bytes}
    (sizes :
      ∀ label, label ∈ labels → 0 < label.length ∧ label.length ≤ 255)
    {qtype asked : UInt16}
    (asks : AsksOnly (builtPacket labels qtype) labels asked) :
    Askable labels ∧ asked = qtype := by
  obtain
    ⟨message, question, answersAt, authoritiesAt, additionalsAt, _, whole,
      one, _, _, sameType⟩ := asks
  have counts := whole.header
  rw [readHeader_builtPacket labels qtype] at counts
  have head := Except.ok.inj counts
  have questions := whole.questions
  have answers := whole.answers
  have authorities := whole.authorities
  have additionals := whole.additionals
  rw [← head] at questions answers authorities additionals
  obtain ⟨_, answersAt_eq⟩ := Prod.mk.inj (Except.ok.inj answers)
  obtain ⟨_, authoritiesAt_eq⟩ := Prod.mk.inj (Except.ok.inj authorities)
  obtain ⟨_, atEnd⟩ := Prod.mk.inj (Except.ok.inj additionals)
  obtain ⟨item, next, rest, read, none, shape⟩ :=
    readMany_succ_eq_ok.mp questions
  obtain ⟨_, next_eq⟩ := Prod.mk.inj (Except.ok.inj none)
  rw [one] at shape
  obtain ⟨isItem, _⟩ := List.cons.inj shape
  rw [next_eq, answersAt_eq, authoritiesAt_eq, atEnd, ← isItem] at read
  obtain ⟨readsName, isType, _⟩ := readQuestion_builtPacket_iff.mp read
  exact ⟨askable_of_readName sizes readsName, sameType.symm.trans isType⟩

theorem asksOnly_of_askable
    {labels : List Bytes}
    (nonempty : ∀ label, label ∈ labels → 0 < label.length)
    (askable : Askable labels) (qtype : UInt16) :
    AsksOnly (builtPacket labels qtype) labels qtype := by
  have wire : ∀ label, label ∈ labels → WireLabel label :=
    fun label member => ⟨nonempty label member, askable.short label member⟩
  have readsName :=
    readName_of_askable nonempty askable builtHeader (questionEnd qtype)
  have read :
      readQuestion (builtPacket labels qtype) 12 =
        .ok
          (⟨spelled (nameText labels), qtype, 1⟩,
            (builtPacket labels qtype).length) :=
    readQuestion_builtPacket_iff.mpr ⟨readsName, rfl, rfl⟩
  have questions :
      readMany (readQuestion (builtPacket labels qtype)) 1 12 =
        .ok
          ([⟨spelled (nameText labels), qtype, 1⟩],
            (builtPacket labels qtype).length) :=
    readMany_succ_eq_ok.mpr ⟨_, _, [], read, rfl, rfl⟩
  have whole :
      ParsesWhole (builtPacket labels qtype)
        ⟨⟨1, 256, 1, 0, 0, 0⟩, [⟨spelled (nameText labels), qtype, 1⟩],
          [], [], []⟩
        (builtPacket labels qtype).length
        (builtPacket labels qtype).length
        (builtPacket labels qtype).length :=
    { header := readHeader_builtPacket labels qtype
      questions
      answers := rfl
      authorities := rfl
      additionals := rfl }
  have long : 12 ≤ (builtPacket labels qtype).length := by
    rw [builtPacket_length]
    exact (Nat.le_add_right 12 _).trans (Nat.le_add_right _ 4)
  refine ⟨_, _, _, _, _, ?_, whole, rfl, ?_, rfl, rfl⟩
  · exact
      dnsParseMessage_of_reads long whole.header whole.questions
        whole.answers whole.authorities whole.additionals
  · exact decodes_encodeName wire builtHeader (questionEnd qtype)

/-- The packet has one question and nothing else. -/
theorem asksOnly_builtPacket_iff
    {labels : List Bytes}
    (sizes :
      ∀ label, label ∈ labels → 0 < label.length ∧ label.length ≤ 255)
    (qtype asked : UInt16) :
    AsksOnly (builtPacket labels qtype) labels asked ↔
      Askable labels ∧ asked = qtype := by
  constructor
  · exact askable_of_asksOnly sizes
  · intro given
    obtain ⟨askable, same⟩ := given
    rw [same]
    exact
      asksOnly_of_askable (fun label member => (sizes label member).1)
        askable qtype

/-! ## Names and types -/

/-- `extract_param` returns the texts of at most 255 characters without NUL,
`&` and space. -/
theorem extractParam_name_iff {text : Bytes} :
    (∃ uri out,
        extractParam uri paramName .name = .ok (some out) ∧
          content out.elements = text) ↔
      text.length ≤ 255 ∧
        ∀ character, character ∈ text →
          character ≠ 0 ∧ character ≠ 38 ∧ character ≠ 32 := by
  constructor
  · intro given
    obtain ⟨uri, out, result, same⟩ := given
    rw [extractParam] at result
    cases found : afterParam uri paramName with
    | none =>
        rw [found] at result
        cases result
    | some behind =>
        rw [found] at result
        simp only at result
        split at result
        · cases result
        · rename_i long
          have short := Nat.lt_of_not_le long
          rw [Filled.write_ended_bind 0 short] at result
          have isOut := Option.some.inj (Except.ok.inj result)
          rw [← isOut, Filled.elements_ended] at same
          rw [← same]
          refine ⟨?_, ?_⟩
          · exact
              (length_content_append_nul_le _).trans (Nat.le_of_lt_succ short)
          · intro character member
            have notNul := ne_zero_of_mem_content member
            have written := (List.takeWhile_prefix _).mem member
            rcases List.mem_append.mp written with inValue | isNul
            · have passes := List.mem_takeWhile_imp inValue
              simp only [ne_eq, Bool.and_eq_true, decide_eq_true_eq] at passes
              exact ⟨notNul, passes⟩
            · exact absurd (List.mem_singleton.mp isNul) notNul
  · intro given
    obtain ⟨length, plain⟩ := given
    have short : text.length < DohArray.name.size := Nat.lt_succ_of_le length
    have found : afterParam (63 :: paramName ++ [61] ++ text) paramName = some text :=
      rfl
    have value :
        (text.takeWhile fun c => c ≠ 38 && c ≠ 32) = text := by
      rw [List.takeWhile_eq_self_iff]
      intro character member
      simpa using (plain character member).2
    refine ⟨63 :: paramName ++ [61] ++ text, Filled.ended text 0 short, ?_, ?_⟩
    · rw [extractParam, found]
      simp only
      rw [value, if_neg (Nat.not_le_of_lt short),
        Filled.write_ended_bind 0 short]
    · rw [Filled.elements_ended]
      exact content_append_nul fun character member => (plain character member).1

theorem registered_of_mem_queryTypes :
    ∀ entry, entry ∈ queryTypes → entry ∈ typeRegistry := by
  decide

/-- The type that is built is the one that is asked for when the string is
known, or when it asks for an address. -/
theorem number_eq_queryType_iff (types : TypeStrings) (typeStr : Bytes) :
    types.number typeStr = some (queryType typeStr) ↔
      KnownType typeStr ∨ types.number typeStr = some 1 := by
  rw [queryType]
  cases found : queryTypes.find? fun entry => strcasecmpEq typeStr entry.1 with
  | none =>
      have unknown : ¬ KnownType typeStr := by
        intro known
        obtain ⟨entry, member, same⟩ := known
        exact List.find?_eq_none.mp found entry member same
      simp only
      exact (or_iff_right unknown).symm
  | some entry =>
      have member := List.mem_of_find?_eq_some found
      have same := List.find?_some found
      refine iff_of_true ?_ (Or.inl ⟨entry, member, same⟩)
      exact
        types.named entry (registered_of_mem_queryTypes entry member) typeStr
          same

/-- The packet that is built for the name and the type string. -/
theorem buildDnsQuery_packet (name : QueryName) (typeStr : Bytes) :
    ∃ out,
      buildDnsQuery name.text typeStr = .ok out ∧
        out.elements =
          builtPacket (nameParts name.text) (queryType typeStr) := by
  obtain ⟨length, plain⟩ := extractParam_name_iff.mp name.returned
  exact
    buildDnsQuery_elements length
      (fun character member => (plain character member).1) typeStr

theorem nameParts_sizes (name : QueryName) :
    ∀ part, part ∈ nameParts name.text →
      0 < part.length ∧ part.length ≤ 255 := by
  obtain ⟨length, _⟩ := extractParam_name_iff.mp name.returned
  intro part member
  obtain ⟨nonempty, short⟩ := mem_nameParts member
  exact ⟨nonempty, short.trans length⟩

/-- For a name that `extract_param` returns and any type string, the query that
is built is the one that was asked for exactly when the parts of the name are
askable and the type string is known or asks for an address. -/
theorem buildsAsked_iff
    (types : TypeStrings) (name : QueryName) (typeStr : Bytes) :
    BuildsAsked types name.text typeStr ↔
      Askable (nameParts name.text) ∧
        (KnownType typeStr ∨ types.number typeStr = some 1) := by
  have sizes := nameParts_sizes name
  obtain ⟨out, built, packet⟩ := buildDnsQuery_packet name typeStr
  rw [← number_eq_queryType_iff]
  constructor
  · intro asked
    obtain ⟨other, qtype, alsoBuilt, number, asks⟩ := asked
    rw [built] at alsoBuilt
    have same := Except.ok.inj alsoBuilt
    rw [← same, packet, asksOnly_builtPacket_iff sizes] at asks
    obtain ⟨askable, isType⟩ := asks
    rw [isType] at number
    exact ⟨askable, number⟩
  · intro given
    obtain ⟨askable, number⟩ := given
    refine ⟨out, _, built, number, ?_⟩
    rw [packet]
    exact (asksOnly_builtPacket_iff sizes _ _).mpr ⟨askable, rfl⟩

/-- Names of types ask for them in any case, and every other string asks for
an address. -/
def addressElse : TypeStrings where
  number text := some (queryType text)
  named := by
    intro entry member text same
    have lower : text.map toLower = entry.1.map toLower := by
      simpa [strcasecmpEq] using same
    have byName : queryType text = queryType entry.1 := by
      simp only [queryType, strcasecmpEq, lower]
    have registered :
        ∀ entry, entry ∈ typeRegistry → queryType entry.1 = entry.2 := by
      decide
    rw [byName, registered entry member]

/-- A name of one part of 64 characters. -/
def longPart : QueryName where
  text := List.replicate 64 97
  returned := by
    apply extractParam_name_iff.mpr
    refine ⟨by decide, ?_⟩
    intro character member
    rw [List.eq_of_mem_replicate member]
    decide

/-- The length byte of the part is no label's. -/
theorem not_buildsAsked_longPart :
    ¬ BuildsAsked addressElse longPart.text [65] := by
  intro asked
  obtain ⟨other, qtype, alsoBuilt, _, asks⟩ := asked
  obtain ⟨out, built, packet⟩ := buildDnsQuery_packet longPart [65]
  rw [built] at alsoBuilt
  have same := Except.ok.inj alsoBuilt
  rw [← same, packet, asksOnly_builtPacket_iff (nameParts_sizes longPart)]
    at asks
  have long : List.replicate 64 97 ∈ nameParts longPart.text := by
    decide
  exact absurd (asks.1.short _ long) (by decide)

end DnsFirewall
