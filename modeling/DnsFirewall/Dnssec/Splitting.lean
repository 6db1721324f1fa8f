import DnsFirewall.Dnssec.CanonicalName

/-!
# Splitting an RRSIG record

The signature of an RRSIG record starts behind the signer name, which
`build_signed_data` and `verify_rrsig` walk over label by label.  The walk
starts at a fixed offset and adds the lengths it reads, so it can end behind
the RDATA; it does not exactly when the bytes behind the header start with a
name that ends inside.
-/

namespace DnsFirewall

open CString BigEndian

/-! ## Bytes of a packet -/

theorem bytesFrom_length (memory : Nat → UInt8) (start count : Nat) :
    (bytesFrom memory start count).length = count := by
  rw [bytesFrom, List.length_map, List.length_range]

theorem bytesFrom_add (memory : Nat → UInt8) (start first second : Nat) :
    bytesFrom memory start (first + second) =
      bytesFrom memory start first ++
        bytesFrom memory (start + first) second := by
  rw [bytesFrom, List.range_add, List.map_append, List.map_map]
  simp only [bytesFrom, Function.comp_def, Nat.add_assoc]

/-- Two parts of the memory, from the whole. -/
theorem bytesFrom_append
    {memory : Nat → UInt8} {start : Nat} {front back : Bytes}
    (whole :
      bytesFrom memory start (front ++ back).length = front ++ back) :
    bytesFrom memory start front.length = front ∧
      bytesFrom memory (start + front.length) back.length = back := by
  rw [List.length_append, bytesFrom_add] at whole
  exact List.append_inj whole (bytesFrom_length memory start _)

theorem memory_eq_of_bytesFrom
    {memory : Nat → UInt8} {start index : Nat} {byte : UInt8} {bytes : Bytes}
    (whole : bytesFrom memory start bytes.length = bytes)
    (there : bytes[index]? = some byte) :
    memory (start + index) = byte := by
  obtain ⟨inside, -⟩ := List.getElem?_eq_some_iff.mp there
  rw [← whole, bytesFrom, List.getElem?_map, List.getElem?_range inside,
    Option.map_some, Option.some.injEq] at there
  exact there

/-! ## Where the signature starts -/

/-- The loop stops at the root byte of the signer name. -/
theorem skipSigner_encode
    (memory : Nat → UInt8) (rrsig : DnsRr) (labels : List Bytes)
    (fuel off : Nat)
    (sizes :
      ∀ label, label ∈ labels →
        0 < label.length ∧ label.length ≤ dnsMaxLabelLen)
    (enough : labels.length ≤ fuel)
    (room : off + (encodeName labels).length ≤ rrsig.rdlength.toNat)
    (stored :
      bytesFrom memory (rrsig.rdata + off) (encodeName labels).length =
        encodeName labels) :
    skipSigner memory rrsig fuel off = off + (labelBytes labels).length ∧
      rdataByte memory rrsig (off + (labelBytes labels).length) = 0 := by
  induction labels generalizing fuel off with
  | nil =>
      have root : rdataByte memory rrsig off = 0 :=
        @memory_eq_of_bytesFrom memory (rrsig.rdata + off) 0 _ _ stored rfl
      refine ⟨?_, root⟩
      cases fuel with
      | zero => rfl
      | succ fuel =>
          rw [skipSigner, if_neg fun both => both.2 root]
          rfl
  | cons label labels inductionHypothesis =>
      obtain ⟨nonempty, short⟩ := sizes label List.mem_cons_self
      have lengthByte := length_toUInt8_toNat short
      rw [List.length_cons] at enough
      obtain ⟨fuel, rfl⟩ : ∃ left, fuel = left + 1 :=
        ⟨fuel - 1, by omega⟩
      rw [encodeName_cons] at room stored
      have atLabel : rdataByte memory rrsig off = label.length.toUInt8 :=
        @memory_eq_of_bytesFrom memory (rrsig.rdata + off) 0 _ _ stored rfl
      have behind :=
        (@bytesFrom_append memory (rrsig.rdata + off)
          (label.length.toUInt8 :: label) (encodeName labels) stored).2
      rw [List.length_cons, Nat.add_assoc] at behind
      rw [List.length_cons, List.length_append] at room
      have rest :=
        inductionHypothesis fuel (off + (label.length + 1))
          (fun other member => sizes other (List.mem_cons_of_mem _ member))
          (by omega) (by omega) behind
      have notRoot : label.length.toUInt8 ≠ 0 := by
        intro zero
        rw [zero] at lengthByte
        have nothing : (0 : UInt8).toNat = 0 := rfl
        omega
      have notPointer : ¬ label.length.toUInt8 &&& 0xC0 = 0xC0 := by
        apply and_ne_of_short
        rw [lengthByte]
        exact short
      have stop :
          off + (labelBytes (label :: labels)).length =
            off + (label.length + 1) + (labelBytes labels).length := by
        rw [labelBytes, List.length_cons, List.length_append]
        omega
      rw [skipSigner, atLabel, if_pos ⟨by omega, notRoot⟩,
        if_neg notPointer, lengthByte, stop]
      exact rest

theorem labels_length_le (labels : List Bytes) :
    labels.length ≤ (labelBytes labels).length := by
  induction labels with
  | nil => exact Nat.le_refl _
  | cons label labels inductionHypothesis =>
      rw [labelBytes, List.length_cons, List.length_cons, List.length_append]
      omega

/-- The split of an RDATA made of a header, a signer name and a signature. -/
theorem signatureOffset_encode
    {memory : Nat → UInt8} {rrsig : DnsRr} {header signature : Bytes}
    {signer : List Bytes} (headerSize : header.length = 18)
    (sizes :
      ∀ label, label ∈ signer →
        0 < label.length ∧ label.length ≤ dnsMaxLabelLen)
    (length :
      rrsig.rdlength.toNat =
        (header ++ encodeName signer ++ signature).length)
    (stored :
      bytesFrom memory rrsig.rdata
          (header ++ encodeName signer ++ signature).length =
        header ++ encodeName signer ++ signature) :
    signatureOffset memory rrsig = 18 + (encodeName signer).length ∧
      bytesFrom memory rrsig.rdata (signatureOffset memory rrsig) =
        header ++ encodeName signer ∧
      rrsigSignature memory rrsig = signature := by
  obtain ⟨front, back⟩ := bytesFrom_append stored
  have name := (bytesFrom_append front).2
  have frontLength :
      (header ++ encodeName signer).length =
        18 + (encodeName signer).length := by
    rw [List.length_append, headerSize]
  rw [List.length_append, frontLength] at length
  rw [headerSize] at name
  rw [frontLength] at front back
  have nameLength :
      (encodeName signer).length = (labelBytes signer).length + 1 := by
    rw [encodeName, List.length_append, List.length_singleton]
  have passes := labels_length_le signer
  obtain ⟨stopped, root⟩ :=
    skipSigner_encode memory rrsig signer rrsig.rdlength.toNat 18 sizes
      (by omega) (by omega) name
  have offset :
      signatureOffset memory rrsig = 18 + (encodeName signer).length := by
    rw [signatureOffset, stopped, if_pos ⟨by omega, root⟩, nameLength]
    rfl
  have inWord : rrsig.rdlength.toNat < 65536 := rrsig.rdlength.toNat_lt
  have count :
      (rrsig.rdlength.toNat + 18446744073709551616 -
            (18 + (encodeName signer).length)) %
          18446744073709551616 =
        signature.length := by
    omega
  refine ⟨offset, by rw [offset]; exact front, ?_⟩
  rw [rrsigSignature]
  simp only [offset, count]
  exact back

/-! ## Reads of the RDATA -/

/-- The loop over the labels of the signer name with the offsets it reads. -/
def skipSignerTraced (memory : Nat → UInt8) (rrsig : DnsRr) :
    Nat → Nat → List Nat × Nat
  | 0, off => ([], off)
  | fuel + 1, off =>
      if off < rrsig.rdlength.toNat then
        if rdataByte memory rrsig off = 0 then ([off], off)
        else if rdataByte memory rrsig off &&& 0xC0 = 0xC0 then
          ([off, off], off + 2)
        else
          let (reads, stop) :=
            skipSignerTraced memory rrsig fuel
              (off + (rdataByte memory rrsig off).toNat + 1)
          (off :: off :: off :: reads, stop)
      else
        ([], off)

/-- The search for the signature start, made once in each of the two
functions: the loop and the test behind it. -/
def splitReads (memory : Nat → UInt8) (rrsig : DnsRr) : List Nat :=
  let (reads, off) :=
    skipSignerTraced memory rrsig rrsig.rdlength.toNat 18
  reads ++ if off < rrsig.rdlength.toNat then [off] else []

/-- The offsets in the RDATA that `build_signed_data` and `verify_rrsig` read
themselves: the search, the copy of what is signed, the search again and the
algorithm. -/
def rdataReads (memory : Nat → UInt8) (rrsig : DnsRr) : List Nat :=
  splitReads memory rrsig ++ List.range (signatureOffset memory rrsig) ++
    splitReads memory rrsig ++ [2]

/-- All reads are inside the RDATA, and so is the start of the signature. -/
structure SplitsInside (memory : Nat → UInt8) (rrsig : DnsRr) : Prop where
  reads :
    ∀ index, index ∈ rdataReads memory rrsig →
      index < rrsig.rdlength.toNat
  start : signatureOffset memory rrsig ≤ rrsig.rdlength.toNat

/-- The bytes start with a name that ends inside: at their end, with a root
byte, or with a pointer of two bytes.  A length byte may have any value whose
two high bits are not both set. -/
inductive SignerInside : Bytes → Prop
  | ended : SignerInside []
  | root (rest : Bytes) : SignerInside (0 :: rest)
  | pointer (high low : UInt8) (rest : Bytes) :
      high &&& 0xC0 = 0xC0 → SignerInside (high :: low :: rest)
  | label (length : UInt8) (rest : Bytes) :
      length &&& 0xC0 ≠ 0xC0 → length.toNat ≤ rest.length →
        SignerInside (rest.drop length.toNat) →
          SignerInside (length :: rest)

theorem skipSignerTraced_snd
    (memory : Nat → UInt8) (rrsig : DnsRr) (fuel off : Nat) :
    (skipSignerTraced memory rrsig fuel off).2 =
      skipSigner memory rrsig fuel off := by
  induction fuel generalizing off with
  | zero => rfl
  | succ fuel inductionHypothesis =>
      rw [skipSignerTraced, skipSigner]
      by_cases inside : off < rrsig.rdlength.toNat
      · by_cases root : rdataByte memory rrsig off = 0
        · simp only [inside, root, if_true, ne_eq, not_true_eq_false,
            and_false, if_false]
        · by_cases pointer : rdataByte memory rrsig off &&& 0xC0 = 0xC0
          · simp only [inside, root, pointer, if_true, if_false, ne_eq,
              not_false_eq_true, and_self]
          · simp only [inside, root, pointer, if_true, if_false, ne_eq,
              not_false_eq_true, and_self, inductionHypothesis]
      · simp only [inside, if_false, false_and]

/-- The loop reads only behind its own test. -/
theorem skipSignerTraced_reads
    (memory : Nat → UInt8) (rrsig : DnsRr) (fuel off : Nat) :
    ∀ index, index ∈ (skipSignerTraced memory rrsig fuel off).1 →
      index < rrsig.rdlength.toNat := by
  induction fuel generalizing off with
  | zero =>
      intro index member
      cases member
  | succ fuel inductionHypothesis =>
      intro index member
      rw [skipSignerTraced] at member
      by_cases inside : off < rrsig.rdlength.toNat
      · rw [if_pos inside] at member
        split at member
        · rw [List.mem_singleton.mp member]
          exact inside
        · split at member
          · simp only [List.mem_cons, List.not_mem_nil, or_false,
              or_self] at member
            rw [member]
            exact inside
          · simp only [List.mem_cons] at member
            rcases member with here | here | here | later
            · rw [here]
              exact inside
            · rw [here]
              exact inside
            · rw [here]
              exact inside
            · exact inductionHypothesis _ index later
      · rw [if_neg inside] at member
        cases member

/-! ## Names that end inside -/

theorem bytesFrom_succ (memory : Nat → UInt8) (start count : Nat) :
    bytesFrom memory start (count + 1) =
      memory start :: bytesFrom memory (start + 1) count := by
  rw [Nat.add_comm, bytesFrom_add]
  rfl

theorem drop_bytesFrom
    (memory : Nat → UInt8) (start : Nat) {skipped count : Nat}
    (inside : skipped ≤ count) :
    (bytesFrom memory start count).drop skipped =
      bytesFrom memory (start + skipped) (count - skipped) := by
  have whole : skipped + (count - skipped) = count := by omega
  rw [← whole, bytesFrom_add, Nat.add_sub_cancel_left]
  exact List.drop_left' (bytesFrom_length memory start skipped)

theorem signerInside_pointer_iff
    {high : UInt8} (isPointer : high &&& 0xC0 = 0xC0) (rest : Bytes) :
    SignerInside (high :: rest) ↔ rest ≠ [] := by
  constructor
  · intro ends
    cases ends with
    | root => exact absurd isPointer (by decide)
    | pointer _ low rest => exact List.cons_ne_nil low rest
    | label _ _ isLabel => exact absurd isPointer isLabel
  · intro more
    cases rest with
    | nil => exact absurd rfl more
    | cons low rest => exact SignerInside.pointer high low rest isPointer

theorem signerInside_label_iff
    {length : UInt8} (isLabel : length &&& 0xC0 ≠ 0xC0)
    (nonempty : length ≠ 0) (rest : Bytes) :
    SignerInside (length :: rest) ↔
      length.toNat ≤ rest.length ∧ SignerInside (rest.drop length.toNat) := by
  constructor
  · intro ends
    cases ends with
    | root => exact absurd rfl nonempty
    | pointer _ _ _ isPointer => exact absurd isPointer isLabel
    | label _ _ _ fits later => exact ⟨fits, later⟩
  · intro given
    exact SignerInside.label length rest isLabel given.1 given.2

/-- Past the end the loop stops where it is. -/
theorem skipSigner_past
    {memory : Nat → UInt8} {rrsig : DnsRr} {off : Nat}
    (past : rrsig.rdlength.toNat ≤ off) (fuel : Nat) :
    skipSigner memory rrsig fuel off = off := by
  cases fuel with
  | zero => rfl
  | succ fuel =>
      rw [skipSigner, if_neg fun both => absurd both.1 (by omega)]

/-- The walk ends inside exactly when the name that starts here does. -/
theorem skipSigner_le_iff
    (memory : Nat → UInt8) (rrsig : DnsRr) {fuel off : Nat}
    (inside : off ≤ rrsig.rdlength.toNat)
    (enough : rrsig.rdlength.toNat ≤ off + fuel) :
    skipSigner memory rrsig fuel off ≤ rrsig.rdlength.toNat ↔
      SignerInside
        (bytesFrom memory (rrsig.rdata + off)
          (rrsig.rdlength.toNat - off)) := by
  induction fuel generalizing off with
  | zero =>
      have atEnd : rrsig.rdlength.toNat - off = 0 := by omega
      rw [atEnd]
      exact ⟨fun _ => SignerInside.ended, fun _ => inside⟩
  | succ fuel inductionHypothesis =>
      rcases Nat.eq_or_lt_of_le inside with atEnd | before
      · rw [skipSigner_past atEnd.ge, atEnd, Nat.sub_self]
        exact ⟨fun _ => SignerInside.ended, fun _ => Nat.le_refl _⟩
      have more :
          rrsig.rdlength.toNat - off =
            rrsig.rdlength.toNat - (off + 1) + 1 := by
        omega
      have here : memory (rrsig.rdata + off) = rdataByte memory rrsig off :=
        rfl
      rw [more, bytesFrom_succ, here, skipSigner]
      by_cases root : rdataByte memory rrsig off = 0
      · rw [if_neg fun both => both.2 root, root]
        exact ⟨fun _ => SignerInside.root _, fun _ => inside⟩
      rw [if_pos ⟨before, root⟩]
      by_cases pointer : rdataByte memory rrsig off &&& 0xC0 = 0xC0
      · rw [if_pos pointer, signerInside_pointer_iff pointer,
          ← List.length_pos_iff, bytesFrom_length]
        omega
      rw [if_neg pointer, signerInside_label_iff pointer root,
        bytesFrom_length]
      by_cases fits :
          (rdataByte memory rrsig off).toNat ≤
            rrsig.rdlength.toNat - (off + 1)
      · have place :
            rrsig.rdata + off + 1 + (rdataByte memory rrsig off).toNat =
              rrsig.rdata +
                (off + (rdataByte memory rrsig off).toNat + 1) := by
          omega
        have left :
            rrsig.rdlength.toNat - (off + 1) -
                (rdataByte memory rrsig off).toNat =
              rrsig.rdlength.toNat -
                (off + (rdataByte memory rrsig off).toNat + 1) := by
          omega
        rw [drop_bytesFrom _ _ fits, place, left,
          inductionHypothesis (by omega) (by omega)]
        exact ⟨fun ends => ⟨fits, ends⟩, fun given => given.2⟩
      · rw [skipSigner_past (by omega)]
        constructor
        · intro within
          omega
        · intro given
          exact absurd given.1 fits

theorem signatureOffset_le_iff (memory : Nat → UInt8) (rrsig : DnsRr) :
    signatureOffset memory rrsig ≤ rrsig.rdlength.toNat ↔
      18 ≤ rrsig.rdlength.toNat ∧
        SignerInside
          (bytesFrom memory (rrsig.rdata + 18)
            (rrsig.rdlength.toNat - 18)) := by
  have noFarther :
      signatureOffset memory rrsig ≤ rrsig.rdlength.toNat ↔
        skipSigner memory rrsig rrsig.rdlength.toNat 18 ≤
          rrsig.rdlength.toNat := by
    rw [signatureOffset]
    split <;> omega
  rw [noFarther]
  by_cases long : 18 ≤ rrsig.rdlength.toNat
  · rw [skipSigner_le_iff memory rrsig long (by omega)]
    exact ⟨fun ends => ⟨long, ends⟩, fun given => given.2⟩
  · rw [skipSigner_past (by omega)]
    exact ⟨fun within => absurd within long, fun given => given.1⟩

theorem splitReads_inside (memory : Nat → UInt8) (rrsig : DnsRr) :
    ∀ index, index ∈ splitReads memory rrsig →
      index < rrsig.rdlength.toNat := by
  intro index member
  rw [splitReads] at member
  rcases List.mem_append.mp member with loop | behind
  · exact skipSignerTraced_reads memory rrsig _ _ index loop
  · by_cases inside :
        (skipSignerTraced memory rrsig rrsig.rdlength.toNat 18).2 <
          rrsig.rdlength.toNat
    · rw [if_pos inside] at behind
      rw [List.mem_singleton.mp behind]
      exact inside
    · rw [if_neg inside] at behind
      cases behind

/-- Every read of the RDATA is inside it, and the signature starts inside,
exactly when the RDATA has its 18 header bytes and a signer name that ends
inside behind them. -/
theorem splitsInside_iff (memory : Nat → UInt8) (rrsig : DnsRr) :
    SplitsInside memory rrsig ↔
      18 ≤ rrsig.rdlength.toNat ∧
        SignerInside
          (bytesFrom memory (rrsig.rdata + 18)
            (rrsig.rdlength.toNat - 18)) := by
  rw [← signatureOffset_le_iff]
  constructor
  · exact SplitsInside.start
  · intro start
    refine ⟨?_, start⟩
    have long := ((signatureOffset_le_iff memory rrsig).mp start).1
    intro index member
    simp only [rdataReads, List.mem_append, List.mem_range,
      List.mem_singleton] at member
    rcases member with ((search | copied) | again) | algorithm
    · exact splitReads_inside memory rrsig index search
    · exact Nat.lt_of_lt_of_le copied start
    · exact splitReads_inside memory rrsig index again
    · omega

/-- A reply whose RRSIG record has only the two bytes that `find_rrsig`
reads. -/
def shortRrsigReply : Bytes :=
  [0, 0, 129, 128, 0, 0, 0, 1, 0, 0, 0, 0,
    1, 97, 0, 0, 46, 0, 1, 0, 0, 0, 0, 0, 2, 0, 1]

def shortRrsig : DnsRr := ⟨[97, 46], dnsTypeRrsig, dnsClassIn, 0, 2, 25⟩

theorem not_splitsInside_shortRrsig :
    ¬ ∀ (packet : Bytes) (beyond : Nat → UInt8) (msg : DnsMessage)
      (name : Bytes) (type : UInt16) (rrsig : DnsRr),
      dnsParseMessage packet = .ok msg →
        findRrsig (packetMemory packet beyond) msg name type = some rrsig →
          SplitsInside (packetMemory packet beyond) rrsig := by
  intro always
  have inside :=
    always shortRrsigReply (fun _ => 0)
      ⟨⟨0, 33152, 0, 1, 0, 0⟩, [], [shortRrsig], [], []⟩ [97, 46] dnsTypeA
      shortRrsig (by decide +kernel) (by decide +kernel)
  have algorithm :=
    inside.reads 2 (List.mem_append_right _ (List.mem_singleton_self 2))
  exact absurd algorithm (by decide)

end DnsFirewall
