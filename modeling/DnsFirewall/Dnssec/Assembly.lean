import DnsFirewall.Dnssec.Splitting
import DnsFirewall.Foundations.FixedArrays

/-!
# Assembling the signed data

`build_signed_data` allocates by the lengths of the names as text and writes
them in wire form.  A name in wire form is at most two bytes longer than its
text, so the records fit, and what is written is the canonical form of each
record behind the header and the signer name.
-/

namespace DnsFirewall

open CString BigEndian FixedArrays

/-- The arrays that `build_signed_data` writes: the allocated `data`, and
`wire_name`. -/
inductive SigningArray where
  | data
  | wireName
deriving DecidableEq, Repr

def signingSize (total : Nat) : SigningArray → Nat
  | .data => total
  | .wireName => 256

/-- The size that is allocated. -/
def allocatedSize (memory : Nat → UInt8) (rrsig : DnsRr)
    (rrset : List DnsRr) : Nat :=
  rrset.foldl
    (fun total rr =>
      total + ((content rr.name).length + 2 + 10 + rr.rdlength.toNat))
    (signatureOffset memory rrsig)

abbrev SigningData (total : Nat) : Type :=
  Filled UInt8 (signingSize total) .data

/-- The body of the loop over the records. -/
def appendRecord (memory : Nat → UInt8) {total : Nat}
    (data : SigningData total) (rr : DnsRr) :
    Except (Stop SigningArray) (SigningData total) := do
  let wireName ←
    (Filled.empty : Filled UInt8 (signingSize total) .wireName).write
      (nameToWire rr.name)
  let data ← data.write wireName.elements
  let data ← data.write (bytes16 rr.type)
  let data ← data.write (bytes16 rr.rrclass)
  let data ← data.write (bytes32 rr.ttl)
  let data ← data.write (bytes16 rr.rdlength)
  data.write (bytesFrom memory rr.rdata rr.rdlength.toNat)

/-- `build_signed_data` with its arrays. -/
def buildSignedDataInto (memory : Nat → UInt8) (rrsig : DnsRr)
    (rrset : List DnsRr) :
    Except (Stop SigningArray)
      (SigningData (allocatedSize memory rrsig rrset)) := do
  let data ←
    Filled.empty.write
      (bytesFrom memory rrsig.rdata (signatureOffset memory rrsig))
  rrset.foldlM (appendRecord memory) data

/-- The text of the labels, with or without the final dot. -/
structure NamedBy (labels : List Bytes) (text : Bytes) : Prop where
  nonempty : ∀ label, label ∈ labels → 0 < label.length
  plain : PlainLabels labels
  short : text.length ≤ 254
  spelled :
    text = nameText labels ∨ text ++ [46] = nameText labels ∨
      labels = [] ∧ text = [46]

/-- A record under an owner with these labels, in canonical form. -/
def canonicalRr (memory : Nat → UInt8) (labels : List Bytes) (rr : DnsRr) :
    Bytes :=
  encodeName (lowerLabels labels) ++ bytes16 rr.type ++
    bytes16 rr.rrclass ++ bytes32 rr.ttl ++ bytes16 rr.rdlength ++
      bytesFrom memory rr.rdata rr.rdlength.toNat

/-! ## Owner names -/

theorem mem_nameText_ne_zero
    {labels : List Bytes} (plain : PlainLabels labels) :
    ∀ character, character ∈ nameText labels → character ≠ 0 := by
  induction labels with
  | nil =>
      intro character member
      cases member
  | cons label labels inductionHypothesis =>
      intro character member
      rw [nameText, List.mem_append, List.mem_cons] at member
      rcases member with inLabel | isDot | later
      · exact (plain label List.mem_cons_self character inLabel).2
      · rw [isDot]
        decide
      · apply inductionHypothesis _ character later
        exact fun other isLater =>
          plain other (List.mem_cons_of_mem label isLater)

theorem length_lt_nameText
    {labels : List Bytes} {label : Bytes} (member : label ∈ labels) :
    label.length < (nameText labels).length := by
  induction labels with
  | nil => cases member
  | cons first labels inductionHypothesis =>
      rw [nameText, List.length_append, List.length_cons]
      rcases List.mem_cons.mp member with isFirst | later
      · rw [isFirst]
        omega
      · have shorter := inductionHypothesis later
        omega

theorem nameText_ends (label : Bytes) (labels : List Bytes) :
    ∃ front, nameText (label :: labels) = front ++ [46] := by
  induction labels generalizing label with
  | nil => exact ⟨label, rfl⟩
  | cons next labels inductionHypothesis =>
      obtain ⟨front, ends⟩ := inductionHypothesis next
      refine ⟨label ++ 46 :: front, ?_⟩
      rw [nameText, ends, List.append_assoc]
      rfl

/-- The loop on a text that lacks the final dot. -/
theorem nameToWireLabels_undotted
    {labels : List Bytes} {text : Bytes} {fuel : Nat}
    (spelled : text ++ [46] = nameText labels) (plain : PlainLabels labels)
    (nonempty : ∀ label, label ∈ labels → 0 < label.length)
    (enough : text.length ≤ fuel) :
    nameToWireLabels fuel text = labelBytes (lowerLabels labels) := by
  induction labels generalizing text fuel with
  | nil => exact absurd spelled (by simp [nameText])
  | cons label labels inductionHypothesis =>
      have filled := nonempty label List.mem_cons_self
      have noDot : ∀ character, character ∈ label → character ≠ 46 :=
        fun character member =>
          (plain label List.mem_cons_self character member).1
      have written :
          labelBytes (lowerLabels (label :: labels)) =
            label.length.toUInt8 ::
              (label.map toLower ++ labelBytes (lowerLabels labels)) := by
        simp only [lowerLabels, List.map_cons, labelBytes, List.length_map]
      rw [nameText] at spelled
      rw [written]
      cases labels with
      | nil =>
          have isLabel : text = label := List.append_cancel_right spelled
          subst isLabel
          obtain ⟨fuel, rfl⟩ : ∃ left, fuel = left + 1 :=
            ⟨fuel - 1, by omega⟩
          have started : text ≠ [] := List.length_pos_iff.mp filled
          have whole : text.takeWhile (· ≠ 46) = text :=
            List.takeWhile_eq_self_iff.mpr (by simpa using noDot)
          rw [nameToWireLabels, if_neg started]
          simp only [whole, if_neg started, List.drop_length,
            List.head?_nil, reduceCtorEq, if_false]
          cases fuel <;> rfl
      | cons next rest =>
          obtain ⟨front, ends⟩ := nameText_ends next rest
          have shape : text = label ++ 46 :: front := by
            rw [ends, ← List.cons_append, ← List.append_assoc] at spelled
            exact List.append_cancel_right spelled
          subst shape
          rw [List.length_append, List.length_cons] at enough
          obtain ⟨fuel, rfl⟩ : ∃ left, fuel = left + 1 :=
            ⟨fuel - 1, by omega⟩
          have tail :=
            @inductionHypothesis front fuel ends.symm
              (fun other member =>
                plain other (List.mem_cons_of_mem label member))
              (fun other member =>
                nonempty other (List.mem_cons_of_mem label member))
              (by omega)
          rw [nameToWireLabels_cons filled noDot, tail]

theorem NamedBy.sized
    {labels : List Bytes} {text : Bytes} (named : NamedBy labels text) :
    SizedLabels labels := by
  intro label member
  have short := named.short
  have shorter := length_lt_nameText member
  refine ⟨named.nonempty label member, ?_⟩
  rcases named.spelled with whole | undotted | root
  · rw [whole] at short
    omega
  · have lengths := congrArg List.length undotted
    rw [List.length_append, List.length_singleton] at lengths
    omega
  · rw [root.1] at member
    cases member

theorem NamedBy.noNul
    {labels : List Bytes} {text : Bytes} (named : NamedBy labels text) :
    ∀ character, character ∈ text → character ≠ 0 := by
  have plain := mem_nameText_ne_zero named.plain
  intro character member
  rcases named.spelled with whole | undotted | root
  · rw [whole] at member
    exact plain character member
  · apply plain character
    rw [← undotted]
    exact List.mem_append_left [46] member
  · rw [root.2] at member
    rw [List.mem_singleton.mp member]
    decide

/-- The owner is written in lower case and in wire form. -/
theorem NamedBy.nameToWire_eq
    {labels : List Bytes} {text : Bytes} (named : NamedBy labels text) :
    nameToWire text = encodeName (lowerLabels labels) := by
  rw [nameToWire, content_eq_self named.noNul, encodeName]
  apply congrArg (· ++ [0])
  rcases named.spelled with whole | undotted | root
  · subst whole
    exact
      nameToWireLabels_nameText labels _ named.plain named.sized
        (Nat.le_refl _)
  · exact
      nameToWireLabels_undotted undotted named.plain named.nonempty
        (Nat.le_refl _)
  · rw [root.1, root.2]
    rfl

/-- A name in wire form is at most two bytes longer than its text. -/
theorem NamedBy.length_le
    {labels : List Bytes} {text : Bytes} (named : NamedBy labels text) :
    (encodeName (lowerLabels labels)).length ≤ text.length + 2 := by
  rw [encodeName_length, nameText_lower, List.length_map]
  rcases named.spelled with whole | undotted | root
  · rw [whole]
    omega
  · have lengths := congrArg List.length undotted
    rw [List.length_append, List.length_singleton] at lengths
    omega
  · rw [root.1]
    exact Nat.le_add_left 1 _

/-! ## The records -/

theorem signedRecord_eq_canonicalRr
    {memory : Nat → UInt8} {labels : List Bytes} {rr : DnsRr}
    (named : NamedBy labels rr.name) :
    signedRecord memory rr = canonicalRr memory labels rr := by
  rw [signedRecord, named.nameToWire_eq, canonicalRr]

theorem canonicalRr_length
    (memory : Nat → UInt8) (labels : List Bytes) (rr : DnsRr) :
    (canonicalRr memory labels rr).length =
      (encodeName (lowerLabels labels)).length + 10 +
        rr.rdlength.toNat := by
  rw [canonicalRr]
  simp only [List.length_append, bytes16_length, bytes32_length,
    bytesFrom_length]

/-- With a name that fits its array, the writes of a record are one. -/
theorem appendRecord_eq_write
    {memory : Nat → UInt8} {total : Nat} (data : SigningData total)
    {labels : List Bytes} {rr : DnsRr} (named : NamedBy labels rr.name) :
    appendRecord memory data rr =
      data.write (canonicalRr memory labels rr) := by
  have scratch :
      (Filled.empty :
          Filled UInt8 (signingSize total) .wireName).elements.length +
          (encodeName (lowerLabels labels)).length ≤
        signingSize total .wireName := by
    rw [Filled.elements_empty, List.length_nil, Nat.zero_add]
    exact Nat.le_trans named.length_le (Nat.add_le_add_right named.short 2)
  rw [appendRecord, named.nameToWire_eq, Filled.write_bind scratch,
    Filled.elements_extend, Filled.elements_empty, List.nil_append]
  simp only [Filled.write_write, canonicalRr, List.append_assoc]

theorem appendRecords_eq_write
    {memory : Nat → UInt8} {total : Nat} (data : SigningData total)
    {labelsOf : DnsRr → List Bytes} {rrset : List DnsRr}
    (named : ∀ rr, rr ∈ rrset → NamedBy (labelsOf rr) rr.name) :
    rrset.foldlM (appendRecord memory) data =
      data.write
        (rrset.flatMap fun rr => canonicalRr memory (labelsOf rr) rr) := by
  induction rrset generalizing data with
  | nil =>
      have room :
          data.elements.length + ([] : Bytes).length ≤
            signingSize total .data :=
        data.inside
      rw [List.flatMap_nil, Filled.write_eq_ok room]
      simp only [Filled.extend, List.append_nil]
      rfl
  | cons rr rrset inductionHypothesis =>
      have later :
          ∀ other, other ∈ rrset → NamedBy (labelsOf other) other.name :=
        fun other member => named other (List.mem_cons_of_mem rr member)
      rw [List.foldlM_cons, List.flatMap_cons,
        appendRecord_eq_write data (named rr List.mem_cons_self),
        ← Filled.write_write]
      apply congrArg
      funext written
      exact inductionHypothesis written later

/-- The estimate by the lengths of the texts is enough. -/
theorem length_le_allocatedSize
    {memory : Nat → UInt8} {labelsOf : DnsRr → List Bytes}
    {rrset : List DnsRr}
    (named : ∀ rr, rr ∈ rrset → NamedBy (labelsOf rr) rr.name)
    (rrsig : DnsRr) :
    signatureOffset memory rrsig +
        (rrset.flatMap fun rr =>
          canonicalRr memory (labelsOf rr) rr).length ≤
      allocatedSize memory rrsig rrset := by
  rw [allocatedSize]
  generalize signatureOffset memory rrsig = start
  induction rrset generalizing start with
  | nil => exact Nat.le_refl start
  | cons rr rrset inductionHypothesis =>
      have isNamed := named rr List.mem_cons_self
      have estimate := isNamed.length_le
      have later :=
        inductionHypothesis
          (fun other member => named other (List.mem_cons_of_mem rr member))
          (start + ((content rr.name).length + 2 + 10 + rr.rdlength.toNat))
      rw [content_eq_self isNamed.noNul] at later
      rw [List.flatMap_cons, List.length_append, canonicalRr_length,
        List.foldl_cons, content_eq_self isNamed.noNul]
      omega

theorem buildSignedData_eq_canonical
    (memory : Nat → UInt8) {labelsOf : DnsRr → List Bytes}
    {rrset : List DnsRr} (rrsig : DnsRr)
    (named : ∀ rr, rr ∈ rrset → NamedBy (labelsOf rr) rr.name) :
    buildSignedData memory rrsig rrset =
      bytesFrom memory rrsig.rdata (signatureOffset memory rrsig) ++
        rrset.flatMap fun rr => canonicalRr memory (labelsOf rr) rr := by
  rw [buildSignedData]
  apply congrArg
  apply List.flatMap_congr
  intro rr member
  exact signedRecord_eq_canonicalRr (named rr member)

/-- No write leaves its array, and what is written is the signed data. -/
theorem buildSignedDataInto_eq_ok
    (memory : Nat → UInt8) {labelsOf : DnsRr → List Bytes}
    {rrset : List DnsRr} (rrsig : DnsRr)
    (named : ∀ rr, rr ∈ rrset → NamedBy (labelsOf rr) rr.name) :
    ∃ data,
      buildSignedDataInto memory rrsig rrset = .ok data ∧
        data.elements = buildSignedData memory rrsig rrset := by
  rw [buildSignedData_eq_canonical memory rrsig named]
  have room :
      (Filled.empty :
          SigningData (allocatedSize memory rrsig rrset)).elements.length +
          (bytesFrom memory rrsig.rdata (signatureOffset memory rrsig) ++
            rrset.flatMap fun rr =>
              canonicalRr memory (labelsOf rr) rr).length ≤
        signingSize (allocatedSize memory rrsig rrset) .data := by
    rw [Filled.elements_empty, List.length_nil, Nat.zero_add,
      List.length_append, bytesFrom_length]
    exact length_le_allocatedSize named rrsig
  have written :
      buildSignedDataInto memory rrsig rrset =
        Filled.empty.write
          (bytesFrom memory rrsig.rdata (signatureOffset memory rrsig) ++
            rrset.flatMap fun rr =>
              canonicalRr memory (labelsOf rr) rr) := by
    rw [buildSignedDataInto, ← Filled.write_write]
    apply congrArg
    funext data
    exact appendRecords_eq_write data named
  rw [written, Filled.write_eq_ok room]
  refine ⟨_, rfl, ?_⟩
  rw [Filled.elements_extend, Filled.elements_empty, List.nil_append]

/-- From an RDATA of a header, a signer name and a signature, and for records
under plain names, the header, the signer name and the canonical records are
written without leaving an array, and the signature is split off. -/
theorem buildSignedData_assembles
    (memory : Nat → UInt8) (rrsig : DnsRr) (header signature : Bytes)
    (signer : List Bytes) (rrset : List DnsRr)
    (labelsOf : DnsRr → List Bytes) (headerSize : header.length = 18)
    (sizes :
      ∀ label, label ∈ signer →
        0 < label.length ∧ label.length ≤ dnsMaxLabelLen)
    (length :
      rrsig.rdlength.toNat =
        (header ++ encodeName signer ++ signature).length)
    (stored :
      bytesFrom memory rrsig.rdata
          (header ++ encodeName signer ++ signature).length =
        header ++ encodeName signer ++ signature)
    (named : ∀ rr, rr ∈ rrset → NamedBy (labelsOf rr) rr.name) :
    (∃ data,
        buildSignedDataInto memory rrsig rrset = .ok data ∧
          data.elements = buildSignedData memory rrsig rrset) ∧
      (∀ rr, rr ∈ rrset → (nameToWire rr.name).length ≤ 256) ∧
      buildSignedData memory rrsig rrset =
        header ++ encodeName signer ++
          rrset.flatMap (fun rr => canonicalRr memory (labelsOf rr) rr) ∧
      rrsigSignature memory rrsig = signature := by
  obtain ⟨_, copied, isSignature⟩ :=
    signatureOffset_encode headerSize sizes length stored
  have assembled := buildSignedData_eq_canonical memory rrsig named
  rw [copied] at assembled
  refine
    ⟨buildSignedDataInto_eq_ok memory rrsig named, ?_, assembled, isSignature⟩
  intro rr member
  rw [(named rr member).nameToWire_eq]
  exact
    Nat.le_trans (named rr member).length_le
      (Nat.add_le_add_right (named rr member).short 2)

/-- The RDATA of an RRSIG record of the signer `a`, and behind it an
address. -/
def sampleRdata : Bytes :=
  [0, 1, 13, 1, 0, 0, 0, 60, 0, 0, 0, 2, 0, 0, 0, 1, 0, 7] ++
    encodeName [[97]] ++ [5, 6]

def sampleMemory (index : Nat) : UInt8 :=
  (sampleRdata ++ [10, 0, 0, 1]).getD index 0

def sampleRrsig : DnsRr := ⟨[97, 46], dnsTypeRrsig, dnsClassIn, 60, 23, 0⟩

/-- An address of `A`, without the final dot. -/
def sampleAddress : DnsRr := ⟨[65], dnsTypeA, dnsClassIn, 60, 4, 23⟩

theorem buildSignedData_assembles_sample :
    rrsigSignature sampleMemory sampleRrsig = [5, 6] :=
  (buildSignedData_assembles sampleMemory sampleRrsig
    [0, 1, 13, 1, 0, 0, 0, 60, 0, 0, 0, 2, 0, 0, 0, 1, 0, 7] [5, 6] [[97]]
    [sampleAddress] (fun _ => [[65]]) rfl (by decide) rfl
    (by decide +kernel)
    (by
      intro rr member
      rw [List.mem_singleton.mp member]
      exact ⟨by decide, by simp [PlainLabels], by decide, by decide⟩)).2.2.2

end DnsFirewall
