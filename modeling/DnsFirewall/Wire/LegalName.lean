import DnsFirewall.Wire.Builder
import DnsFirewall.Wire.ReaderSpec

/-!
# Names of ordinary labels

A legal name is a short sequence of labels without dots and NUL bytes.  Its
text ends every label with a dot, its encoding puts a length byte before every
label and the root byte behind the last one.  The builder turns the text into
the encoding, and the reader turns the encoding back into the text.
-/

namespace DnsFirewall

open CString Cursor BigEndian

def nameText : List Bytes → Bytes
  | [] => []
  | label :: labels => label ++ 46 :: nameText labels

/-- The labels of a name on the wire, without the root byte. -/
def labelBytes : List Bytes → Bytes
  | [] => []
  | label :: labels =>
      label.length.toUInt8 :: (label ++ labelBytes labels)

/-- A name on the wire. -/
def encodeName (labels : List Bytes) : Bytes :=
  labelBytes labels ++ [0]

/-- A label as it may stand on the wire, of any characters. -/
structure WireLabel (label : Bytes) : Prop where
  nonempty : 0 < label.length
  short : label.length ≤ dnsMaxLabelLen

/-- No label has a dot or a NUL. -/
def PlainLabels (labels : List Bytes) : Prop :=
  ∀ label, label ∈ labels →
    ∀ character, character ∈ label → character ≠ 46 ∧ character ≠ 0

/-- A name that can stand in a packet: labels of 1 to 63 bytes, in at most 255
octets with the root byte. -/
structure WireName where
  labels : List Bytes
  sizes : ∀ label, label ∈ labels →
    0 < label.length ∧ label.length ≤ dnsMaxLabelLen
  fits : (nameText labels).length ≤ 254

theorem WireName.wire (name : WireName) :
    ∀ label, label ∈ name.labels → WireLabel label := by
  intro label member
  obtain ⟨nonempty, short⟩ := name.sizes label member
  exact ⟨nonempty, short⟩

structure LegalLabel (label : Bytes) : Prop where
  nonempty : 0 < label.length
  short : label.length ≤ dnsMaxLabelLen
  noDot : ∀ character, character ∈ label → character ≠ 46
  noNul : ∀ character, character ∈ label → character ≠ 0

theorem LegalLabel.wire {label : Bytes} (legal : LegalLabel label) :
    WireLabel label :=
  ⟨legal.nonempty, legal.short⟩

/-- One to twenty legal labels whose text has at most 254 characters. -/
structure LegalName where
  labels : List Bytes
  legal : ∀ label, label ∈ labels → LegalLabel label
  nonempty : labels ≠ []
  count : labels.length ≤ 20
  fits : (nameText labels).length ≤ 254

namespace LegalName

def text (name : LegalName) : Bytes :=
  nameText name.labels

def encode (name : LegalName) : Bytes :=
  encodeName name.labels

end LegalName

/-! ## Texts -/

@[simp]
theorem encodeName_length (labels : List Bytes) :
    (encodeName labels).length = (nameText labels).length + 1 := by
  rw [encodeName, List.length_append, List.length_singleton]
  apply congrArg (· + 1)
  induction labels with
  | nil => rfl
  | cons label labels inductionHypothesis =>
      rw [labelBytes, nameText, List.length_cons, List.length_append,
        List.length_append, List.length_cons, inductionHypothesis]
      omega

theorem nameText_noNul
    {labels : List Bytes}
    (legal : ∀ label, label ∈ labels → LegalLabel label) :
    ∀ character, character ∈ nameText labels → character ≠ 0 := by
  induction labels with
  | nil =>
      intro character member
      simp [nameText] at member
  | cons label labels inductionHypothesis =>
      intro character member
      simp only [nameText, List.mem_append, List.mem_cons] at member
      rcases member with inLabel | rfl | inTail
      · exact (legal label List.mem_cons_self).noNul character inLabel
      · decide
      · exact inductionHypothesis
          (fun other tailMember =>
            legal other (List.mem_cons_of_mem label tailMember))
          character inTail

theorem LegalName.text_ne_nil (name : LegalName) : name.text ≠ [] := by
  obtain ⟨labels, legal, nonempty, count, fits⟩ := name
  cases labels with
  | nil => exact absurd rfl nonempty
  | cons label labels => simp [LegalName.text, nameText]

/-! ## The builder writes the encoding -/

theorem takeWhile_label
    {label : Bytes} (noDot : ∀ character, character ∈ label → character ≠ 46)
    (rest : Bytes) :
    (label ++ 46 :: rest).takeWhile (· ≠ 46) = label := by
  have passes :
      ∀ character, character ∈ label →
        decide (character ≠ 46) = true := by
    intro character member
    simpa using noDot character member
  rw [List.takeWhile_append_of_pos passes]
  simp

@[simp]
theorem DnsBuilder.put_nil
    {b : DnsBuilder} (room : b.pos ≤ b.buf.length) :
    b.put [] = b := by
  rw [DnsBuilder.put_of_le (by simpa using room)]
  simp

/-- One pass of the loop on a text with a dot. -/
theorem writeLabels_dotted
    {label : Bytes} (noDot : ∀ character, character ∈ label → character ≠ 46)
    (fuel : Nat) (b : DnsBuilder) (rest : Bytes) :
    writeLabels (fuel + 1) b (label ++ 46 :: rest) =
      if dnsMaxLabelLen < label.length then (false, b)
      else if b.ensure (1 + label.length) = false then (false, b)
      else
        writeLabels fuel ((b.put [label.length.toUInt8]).put label) rest := by
  have nonempty : label ++ 46 :: rest ≠ [] := by simp
  have behind : (label ++ 46 :: rest).drop label.length = 46 :: rest :=
    List.drop_left' rfl
  rw [writeLabels, if_neg nonempty]
  simp only [takeWhile_label noDot, behind, List.head?_cons,
    List.tail_cons, if_true]

/-- One pass of the loop on a text that starts with a legal label. -/
theorem writeLabels_cons
    {label : Bytes} (legal : LegalLabel label) {b : DnsBuilder}
    (fuel : Nat) (rest : Bytes)
    (room : b.pos + (1 + label.length) ≤ b.buf.length) :
    writeLabels (fuel + 1) b (label ++ 46 :: rest) =
      writeLabels fuel (b.put (label.length.toUInt8 :: label)) rest := by
  rw [writeLabels_dotted legal.noDot,
    if_neg (Nat.not_lt.mpr legal.short),
    if_neg (DnsBuilder.not_ensure_eq_false room),
    DnsBuilder.put_put (by simpa using room)]
  rfl

/-- The loop writes the length-prefixed labels of the text. -/
theorem writeLabels_nameText
    (labels : List Bytes) (fuel : Nat) (b : DnsBuilder)
    (legal : ∀ label, label ∈ labels → LegalLabel label)
    (enough : (nameText labels).length ≤ fuel)
    (room : b.pos + (labelBytes labels).length ≤ b.buf.length) :
    writeLabels fuel b (nameText labels) =
      (true, b.put (labelBytes labels)) := by
  induction labels generalizing fuel b with
  | nil =>
      have unchanged : b.put (labelBytes []) = b :=
        DnsBuilder.put_nil (by simpa [labelBytes] using room)
      rw [unchanged]
      cases fuel with
      | zero => rfl
      | succ fuel => simp [writeLabels, nameText]
  | cons label labels inductionHypothesis =>
      have headLegal := legal label List.mem_cons_self
      have headNonempty := headLegal.nonempty
      have tailLegal :
          ∀ other, other ∈ labels → LegalLabel other :=
        fun other member => legal other (List.mem_cons_of_mem label member)
      simp only [nameText, List.length_append, List.length_cons] at enough
      simp only [labelBytes, List.length_cons, List.length_append] at room
      obtain ⟨fuel, rfl⟩ : ∃ left, fuel = left + 1 :=
        ⟨fuel - 1, by omega⟩
      rw [nameText, writeLabels_cons headLegal fuel _ (by omega),
        inductionHypothesis fuel _ tailLegal (by omega) (by
          simp only [DnsBuilder.put_pos, DnsBuilder.put_buf_length,
            List.length_cons]
          omega),
        DnsBuilder.put_put (by
          simp only [List.length_cons]
          omega)]
      rfl

/-- With room for its encoding a legal name is one write. -/
theorem writeNameUncompressed_legal
    (name : LegalName) {b : DnsBuilder}
    (room : b.pos + name.encode.length ≤ b.buf.length) :
    writeNameUncompressed b name.text = (true, b.put name.encode) := by
  have whole : content name.text = name.text :=
    content_eq_self (nameText_noNul name.legal)
  have encoded :
      name.encode.length = (labelBytes name.labels).length + 1 := by
    simp [LegalName.encode, encodeName]
  have written :
      writeLabels name.text.length b name.text =
        (true, b.put (labelBytes name.labels)) :=
    writeLabels_nameText name.labels _ b name.legal (Nat.le_refl _)
      (by omega)
  rw [writeNameUncompressed]
  simp only [whole, if_neg name.text_ne_nil, written]
  rw [if_neg (DnsBuilder.not_ensure_eq_false (by
      simp only [DnsBuilder.put_pos, DnsBuilder.put_buf_length]
      omega)),
    DnsBuilder.put_put (by
      simp only [List.length_singleton]
      omega)]
  rfl

/-! ## The reader reads the encoding -/

theorem length_toUInt8_toNat
    {label : Bytes} (short : label.length ≤ dnsMaxLabelLen) :
    label.length.toUInt8.toNat = label.length := by
  have bound : label.length < 256 := by
    unfold dnsMaxLabelLen at short
    omega
  simp [Nat.mod_eq_of_lt bound]

/-- A length byte of at most 63 is no pointer. -/
theorem and_ne_of_short {len : UInt8} (short : len.toNat ≤ 63) :
    ¬ len &&& 0xC0 = 0xC0 := by
  intro equal
  have asNat : len.toNat &&& 0xC0 = 0xC0 := by
    rw [← UInt8.toNat_inj] at equal
    simpa using equal
  have bound : len.toNat &&& 0xC0 ≤ len.toNat := Nat.and_le_left
  omega

/-- A pass takes a label if the name buffer has room for it. -/
theorem nameStep_wire
    {label : Bytes} (wire : WireLabel label) (outLen outPos : Nat)
    (before after : Bytes) :
    nameStep (before ++ label.length.toUInt8 :: (label ++ after)) outLen
        outPos before.length =
      if outLen ≤ outPos + label.length + 1 then .error .reject
      else .ok (.label label) := by
  have lengthByte := length_toUInt8_toNat wire.short
  have nonempty := wire.nonempty
  have short := wire.short
  have total :
      (before ++ label.length.toUInt8 :: (label ++ after)).length =
        before.length + 1 + label.length + after.length := by
    simp only [List.length_append, List.length_cons]
    omega
  have head :
      byteAt (before ++ label.length.toUInt8 :: (label ++ after))
          before.length =
        .ok label.length.toUInt8 := by
    simp [byteAt]
  have body :
      bytesAt (before ++ label.length.toUInt8 :: (label ++ after))
          (before.length + 1) label.length =
        .ok label := by
    rw [bytesAt_of_le (by omega)]
    have split :
        (before ++ label.length.toUInt8 :: (label ++ after)).drop
            (before.length + 1) =
          label ++ after := by
      rw [← List.drop_drop, List.drop_left' rfl]
      rfl
    rw [split, List.take_left' rfl]
  have notRoot : ¬ label.length.toUInt8 = 0 := by
    intro zero
    rw [zero] at lengthByte
    simp only [UInt8.toNat_zero] at lengthByte
    omega
  have notPointer : ¬ label.length.toUInt8 &&& 0xC0 = 0xC0 :=
    and_ne_of_short (by
      unfold dnsMaxLabelLen at short
      omega)
  unfold nameStep
  rw [if_neg (by omega), head]
  simp only [bind, Except.bind, pure, Except.pure]
  rw [if_neg notRoot, if_neg notPointer, lengthByte,
    if_neg (by omega), if_neg (by omega), body]

/-- A pass over a label goes on behind it, unless the name buffer is full. -/
theorem readNameLoop_label
    {label : Bytes} (wire : WireLabel label) (outLen loops : Nat)
    (before after out : Bytes) (jumped : Option Nat) :
    readNameLoop (before ++ label.length.toUInt8 :: (label ++ after)) outLen
        (loops + 1) before.length out jumped =
      if outLen ≤ out.length + label.length + 1 then .error .reject
      else
        readNameLoop ((before ++ label.length.toUInt8 :: label) ++ after)
          outLen loops (before ++ label.length.toUInt8 :: label).length
          (out ++ (label ++ [46])) jumped := by
  rw [readNameLoop, nameStep_wire wire]
  by_cases full : outLen ≤ out.length + label.length + 1
  · rw [if_pos full, if_pos full]
    rfl
  · rw [if_neg full, if_neg full]
    have written :
        putOut outLen out (label ++ [46]) = .ok (out ++ (label ++ [46])) :=
      putOut_of_le (by
        simp only [List.length_append, List.length_singleton]
        omega)
    have place :
        before.length + 1 + label.length =
          (before ++ label.length.toUInt8 :: label).length := by
      rw [List.length_append, List.length_cons]
      omega
    have shape :
        before ++ label.length.toUInt8 :: (label ++ after) =
          (before ++ label.length.toUInt8 :: label) ++ after := by
      rw [List.append_assoc, List.cons_append]
    simp only [bind, Except.bind, written]
    rw [place, shape]

theorem encodeName_cons (label : Bytes) (labels : List Bytes) :
    encodeName (label :: labels) =
      label.length.toUInt8 :: (label ++ encodeName labels) := by
  simp only [encodeName, labelBytes, List.cons_append, List.append_assoc]

theorem nameStep_root
    {outLen outPos : Nat} (before after : Bytes) :
    nameStep (before ++ 0 :: after) outLen outPos before.length =
      .ok .root := by
  have inside : ¬ (before ++ 0 :: after).length ≤ before.length := by
    simp
  have head :
      byteAt (before ++ 0 :: after) before.length = .ok 0 := by
    simp [byteAt]
  rw [nameStep]
  rw [if_neg inside, head]
  rfl

/-- From any pass with enough passes left, the loop appends the text of the
labels that follow and stops behind the root byte. -/
theorem readNameLoop_encoded
    (outLen : Nat) (labels : List Bytes) (loops : Nat)
    (before after out : Bytes)
    (wire : ∀ label, label ∈ labels → WireLabel label)
    (enough : labels.length < loops)
    (room : out.length + (nameText labels).length < outLen)
    (nonempty : 0 < out.length + (nameText labels).length) :
    readNameLoop (before ++ (encodeName labels ++ after)) outLen loops
        before.length out none =
      .ok (out ++ nameText labels,
        before.length + (encodeName labels).length) := by
  induction labels generalizing loops before out with
  | nil =>
      obtain ⟨loops, rfl⟩ : ∃ left, loops = left + 1 :=
        ⟨loops - 1, by simp only [List.length_nil] at enough; omega⟩
      simp only [nameText, List.length_nil, Nat.add_zero] at room nonempty
      have spelled : ¬ out.length = 0 := by omega
      have written := @putOut_of_le outLen out [0] room
      simp only [encodeName, labelBytes, List.nil_append,
        List.singleton_append, nameText, List.append_nil,
        List.length_singleton]
      rw [readNameLoop, nameStep_root]
      simp [finishName, written, spelled, bind, Except.bind, pure,
        Except.pure]
  | cons label labels inductionHypothesis =>
      have tailWire :
          ∀ other, other ∈ labels → WireLabel other :=
        fun other member => wire other (List.mem_cons_of_mem label member)
      obtain ⟨loops, rfl⟩ : ∃ left, loops = left + 1 :=
        ⟨loops - 1, by simp only [List.length_cons] at enough; omega⟩
      simp only [List.length_cons] at enough
      simp only [nameText, List.length_append, List.length_cons] at room
      -- the rest of the name starts behind this label
      have rest :=
        inductionHypothesis loops
          (before ++ label.length.toUInt8 :: label)
          (out ++ (label ++ [46])) tailWire (by omega)
          (by
            simp only [List.length_append, List.length_singleton]
            omega)
          (by
            simp only [List.length_append, List.length_singleton]
            omega)
      have sameText :
          out ++ (label ++ [46]) ++ nameText labels =
            out ++ nameText (label :: labels) := by
        simp [nameText]
      have sameStop :
          (before ++ label.length.toUInt8 :: label).length +
              (encodeName labels).length =
            before.length +
              (label.length.toUInt8 ::
                (label ++ encodeName labels)).length := by
        simp only [List.length_append, List.length_cons]
        omega
      rw [sameText, sameStop] at rest
      rw [encodeName_cons, List.cons_append, List.append_assoc,
        readNameLoop_label (wire label List.mem_cons_self),
        if_neg (by omega), rest]

/-- The reader inverts the encoding of a legal name in any context. -/
theorem readName_legal (name : LegalName) (before after : Bytes) :
    readName (before ++ (name.encode ++ after)) dnsMaxNameLen
        before.length =
      .ok (name.text, before.length + name.encode.length) := by
  have fits := name.fits
  have positive : 0 < (nameText name.labels).length :=
    List.length_pos_iff.mpr name.text_ne_nil
  have count := name.count
  exact
    readNameLoop_encoded dnsMaxNameLen name.labels readNamePasses before after []
      (fun label member => (name.legal label member).wire)
      (by unfold readNamePasses; omega)
      (by
        simp only [List.length_nil, dnsMaxNameLen]
        omega)
      (by simpa using positive)

end DnsFirewall
