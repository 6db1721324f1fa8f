import DnsFirewall.Dnssec.Coverage
import DnsFirewall.Dnssec.Splitting
import Mathlib.Data.List.Sort

/-!
# Correctly signed sets of addresses

A signature is made over the header of its RRSIG record, the canonical name of
the signer and all records of the set, in canonical order, under the canonical
owner and with the original TTL.  The validator rebuilds these bytes from one
record as it was received.
-/

namespace DnsFirewall

open CString BigEndian

/-- The A records of an owner with a signature for them. -/
structure SignedSet where
  owner : WireName
  rrclass : UInt16
  addresses : List Bytes
  algorithm : UInt8
  labels : UInt8
  originalTtl : UInt32
  expiration : UInt32
  inception : UInt32
  keyTag : UInt16
  signer : WireName
  signature : Bytes
  nonempty : addresses ≠ []
  distinct : addresses.Nodup
  addressLength : ∀ address, address ∈ addresses → address.length = 4
  supported : algorithm = 8 ∨ algorithm = 13
  fits : 18 + signer.encode.length + signature.length ≤ 65535

namespace SignedSet

/-- The fields of the RRSIG record in front of the signer name. -/
def header (set : SignedSet) : Bytes :=
  bytes16 dnsTypeA ++ [set.algorithm, set.labels] ++
    bytes32 set.originalTtl ++ bytes32 set.expiration ++
      bytes32 set.inception ++ bytes16 set.keyTag

/-- The RDATA of the RRSIG record. -/
def rdata (set : SignedSet) : Bytes :=
  set.header ++ set.signer.encode ++ set.signature

/-- A record of the set in canonical form. -/
def canonicalRecord (set : SignedSet) (address : Bytes) : Bytes :=
  set.owner.lower.encode ++ bytes16 dnsTypeA ++ bytes16 set.rrclass ++
    bytes32 set.originalTtl ++ bytes16 4 ++ address

/-- What the signature is made for. -/
def signedData (set : SignedSet) : Bytes :=
  set.header ++ set.signer.lower.encode ++
    (set.addresses.insertionSort (· ≤ ·)).flatMap set.canonicalRecord

/-- A name of the set's owner, in letters of either case. -/
def Spells (set : SignedSet) (text : Bytes) : Prop :=
  ∃ name : WireName,
    lowerLabels name.labels = lowerLabels set.owner.labels ∧
      text = name.text

end SignedSet

/-- The answer section holds the A records of the set and its RRSIG record,
in any order. -/
structure Carries (memory : Nat → UInt8) (set : SignedSet)
    (msg : DnsMessage) (rrsig : DnsRr) (records : List DnsRr) : Prop where
  together : msg.answers.Perm (rrsig :: records)
  isRrsig : rrsig.type = dnsTypeRrsig
  rrsigOwner : set.Spells rrsig.name
  rrsigLength : rrsig.rdlength.toNat = set.rdata.length
  rrsigBytes :
    bytesFrom memory rrsig.rdata set.rdata.length = set.rdata
  isA : ∀ rr, rr ∈ records → rr.type = dnsTypeA
  sameClass : ∀ rr, rr ∈ records → rr.rrclass = set.rrclass
  owner : ∀ rr, rr ∈ records → set.Spells rr.name
  length : ∀ rr, rr ∈ records → rr.rdlength = 4
  ttl : ∀ rr, rr ∈ records → rr.ttl ≤ set.originalTtl
  addresses :
    (records.map fun rr => bytesFrom memory rr.rdata 4).Perm set.addresses

/-- The set has one record, received under the RRSIG record's spelling of a
plain owner and with the original TTL, and the signer name has no capital
letter. -/
structure AsSigned (set : SignedSet) (rrsig : DnsRr) (records : List DnsRr) :
    Prop where
  single : ∃ rr, records = [rr] ∧ rr.ttl = set.originalTtl ∧
    rr.name = rrsig.name
  plain : PlainLabels set.owner.labels
  signer : lowerLabels set.signer.labels = set.signer.labels

/-! ## The RDATA of the RRSIG record -/

section

variable {memory : Nat → UInt8} {set : SignedSet} {msg : DnsMessage}
  {rrsig : DnsRr} {records : List DnsRr}

theorem SignedSet.header_length (set : SignedSet) :
    set.header.length = 18 :=
  rfl

theorem SignedSet.rdata_length (set : SignedSet) :
    set.rdata.length =
      18 + set.signer.encode.length + set.signature.length := by
  rw [SignedSet.rdata, List.length_append, List.length_append,
    set.header_length]

/-- The RDATA of the RRSIG record is split where the signer name ends. -/
theorem Carries.split (carries : Carries memory set msg rrsig records) :
    bytesFrom memory rrsig.rdata (signatureOffset memory rrsig) =
        set.header ++ set.signer.encode ∧
      rrsigSignature memory rrsig = set.signature :=
  (signatureOffset_encode set.header_length set.signer.sizes
    carries.rrsigLength carries.rrsigBytes).2

/-! ## The RRSIG record of the message -/

theorem Carries.mem_answers
    (carries : Carries memory set msg rrsig records) {rr : DnsRr} :
    rr ∈ msg.answers ↔ rr = rrsig ∨ rr ∈ records := by
  rw [carries.together.mem_iff, List.mem_cons]

theorem Carries.rdataByte_eq
    (carries : Carries memory set msg rrsig records) {index : Nat}
    {byte : UInt8} (there : set.rdata[index]? = some byte) :
    rdataByte memory rrsig index = byte :=
  memory_eq_of_bytesFrom carries.rrsigBytes there

theorem Carries.covers (carries : Carries memory set msg rrsig records) :
    word16 (rdataByte memory rrsig 0) (rdataByte memory rrsig 1) =
      dnsTypeA := by
  have high : rdataByte memory rrsig 0 = 0 := carries.rdataByte_eq rfl
  have low : rdataByte memory rrsig 1 = 1 := carries.rdataByte_eq rfl
  rw [high, low]
  rfl

theorem Carries.isAddress
    (carries : Carries memory set msg rrsig records) {rr : DnsRr}
    (member : rr ∈ records) :
    rr.isAddress = true :=
  isAddress_iff.mpr ⟨carries.isA rr member, carries.length rr member⟩

/-- Every search for an RRSIG record ends at the one of the set. -/
theorem Carries.findRrsig_eq
    (carries : Carries memory set msg rrsig records) {name : Bytes}
    {other : DnsRr} (found : findRrsig memory msg name dnsTypeA = some other) :
    other = rrsig := by
  obtain ⟨member, isRrsig, -⟩ := findRrsig_eq_some memory found
  rcases carries.mem_answers.mp member with same | inRecords
  · exact same
  · rw [carries.isA other inRecords] at isRrsig
    exact absurd isRrsig (by decide)

theorem Carries.findRrsig_of_sameName
    (carries : Carries memory set msg rrsig records) {name : Bytes}
    (sameName : name = rrsig.name) :
    findRrsig memory msg name dnsTypeA = some rrsig := by
  cases found : findRrsig memory msg name dnsTypeA with
  | some other => rw [carries.findRrsig_eq found]
  | none =>
      have missing :=
        List.find?_eq_none.mp found rrsig (carries.mem_answers.mpr (.inl rfl))
      have long : ¬ rrsig.rdlength < 2 := by
        intro short
        have asNat : rrsig.rdlength.toNat < 2 := UInt16.lt_iff_toNat_lt.mp short
        rw [carries.rrsigLength, set.rdata_length] at asNat
        omega
      rw [carries.covers, sameName] at missing
      simp [carries.isRrsig, long] at missing

theorem Carries.firstSigned_mem
    (carries : Carries memory set msg rrsig records) {rr other : DnsRr}
    (first : firstSigned memory msg = some (rr, other)) :
    rr ∈ records ∧ other = rrsig := by
  obtain ⟨candidate, member, found⟩ := List.exists_of_findSome?_eq_some first
  split at found
  case isTrue address =>
    obtain ⟨signature, isFound, same⟩ := Option.map_eq_some_iff.mp found
    cases same
    refine ⟨?_, carries.findRrsig_eq isFound⟩
    rcases carries.mem_answers.mp member with same | inRecords
    · have isA := (isAddress_iff.mp address).1
      rw [same, carries.isRrsig] at isA
      exact absurd isA (by decide)
    · exact inRecords
  case isFalse => cases found

/-! ## The bytes that are verified -/

theorem Carries.buildSignedData_eq
    (carries : Carries memory set msg rrsig records) (rr : DnsRr) :
    buildSignedData memory rrsig [rr] =
      set.header ++ set.signer.encode ++ signedRecord memory rr := by
  rw [buildSignedData, carries.split.1, List.flatMap_singleton]

theorem Carries.signedRecord_eq
    (carries : Carries memory set msg rrsig records) {rr : DnsRr}
    (member : rr ∈ records) :
    signedRecord memory rr =
      nameToWire rr.name ++ bytes16 dnsTypeA ++ bytes16 set.rrclass ++
        bytes32 rr.ttl ++ bytes16 4 ++ bytesFrom memory rr.rdata 4 := by
  rw [signedRecord, carries.isA rr member, carries.sameClass rr member,
    carries.length rr member]
  rfl

theorem Carries.verifyRrsig_iff
    (carries : Carries memory set msg rrsig records)
    {K : Type} {verify : K → Bytes → Bytes → Bool} {key : K}
    (accepts : ∀ data,
      verify key data set.signature = true ↔ data = set.signedData)
    (rr : DnsRr) :
    verifyRrsig verify memory rrsig [rr] key = true ↔
      set.header ++ set.signer.encode ++ signedRecord memory rr =
        set.signedData := by
  have algorithm : rdataByte memory rrsig 2 = set.algorithm :=
    carries.rdataByte_eq rfl
  have supported :
      rdataByte memory rrsig 2 = 8 ∨ rdataByte memory rrsig 2 = 13 := by
    rw [algorithm]
    exact set.supported
  rw [verifyRrsig, if_pos supported, carries.split.2,
    carries.buildSignedData_eq]
  exact accepts _

theorem SignedSet.canonicalRecord_length
    {address : Bytes} (member : address ∈ set.addresses) :
    (set.canonicalRecord address).length =
      set.owner.encode.length + 14 := by
  rw [SignedSet.canonicalRecord]
  simp only [List.length_append, bytes16_length, bytes32_length,
    set.owner.lower_encode_length, set.addressLength address member]

/-- All spellings of the owner are as long. -/
theorem SignedSet.Spells.length_le
    {text : Bytes} (spells : set.Spells text) :
    text.length ≤ set.owner.encode.length := by
  obtain ⟨name, sameLabels, rfl⟩ := spells
  have sameEncoding : name.lower.encode = set.owner.lower.encode := by
    rw [WireName.lower_encode, WireName.lower_encode, sameLabels]
  rw [← set.owner.lower_encode_length, ← sameEncoding,
    name.lower_encode_length]
  exact name.text_length_le

theorem plain_of_spelling
    {name : WireName} (plain : PlainLabels set.owner.labels)
    (sameLabels : lowerLabels name.labels = lowerLabels set.owner.labels) :
    PlainLabels name.labels := by
  rw [← plainLabels_lower, sameLabels, plainLabels_lower]
  exact plain

theorem SignedSet.Spells.noNul
    {text : Bytes} (spells : set.Spells text)
    (plain : PlainLabels set.owner.labels) :
    ∀ character, character ∈ text → character ≠ 0 := by
  obtain ⟨name, sameLabels, rfl⟩ := spells
  exact name.text_noNul (plain_of_spelling plain sameLabels)

theorem SignedSet.Spells.rebuilt
    {text : Bytes} (spells : set.Spells text)
    (plain : PlainLabels set.owner.labels) :
    nameToWire text = set.owner.lower.encode := by
  obtain ⟨name, sameLabels, rfl⟩ := spells
  rw [nameToWire_plain (plain_of_spelling plain sameLabels),
    WireName.lower_encode, WireName.lower_encode, sameLabels]

/-- The bytes of one record are never those of two or more. -/
theorem Carries.single_of_signedRecord
    (carries : Carries memory set msg rrsig records) {rr : DnsRr}
    (member : rr ∈ records)
    (same :
      signedRecord memory rr =
        (set.addresses.insertionSort (· ≤ ·)).flatMap set.canonicalRecord) :
    ∃ address, set.addresses = [address] := by
  have sorted := List.perm_insertionSort (· ≤ ·) set.addresses
  cases sortedIs : set.addresses.insertionSort (· ≤ ·) with
  | nil =>
      rw [sortedIs] at sorted
      exact absurd sorted.symm.eq_nil set.nonempty
  | cons first rest =>
      cases rest with
      | nil =>
          rw [sortedIs] at sorted
          exact ⟨first, sorted.symm.eq_singleton⟩
      | cons second rest =>
          have firstLength : (set.canonicalRecord first).length = _ :=
            set.canonicalRecord_length (sorted.mem_iff.mp (by
              rw [sortedIs]
              exact List.mem_cons_self))
          have secondLength : (set.canonicalRecord second).length = _ :=
            set.canonicalRecord_length (sorted.mem_iff.mp (by
              rw [sortedIs]
              exact List.mem_cons_of_mem _ List.mem_cons_self))
          have lengths := congrArg List.length same
          rw [sortedIs, carries.signedRecord_eq member, List.flatMap_cons,
            List.flatMap_cons] at lengths
          simp only [List.length_append, bytes16_length, bytes32_length,
            bytesFrom_length, firstLength, secondLength] at lengths
          have rebuilt := nameToWire_length_le rr.name
          have short := (carries.owner rr member).length_le
          omega

theorem insertionSort_single (address : Bytes) :
    [address].insertionSort (· ≤ ·) = [address] :=
  rfl

/-- The rebuilt bytes are the signed ones in one case only. -/
theorem Carries.signedData_eq_iff
    (carries : Carries memory set msg rrsig records) {rr : DnsRr}
    (member : rr ∈ records) :
    set.header ++ set.signer.encode ++ signedRecord memory rr =
        set.signedData ↔
      lowerLabels set.signer.labels = set.signer.labels ∧
        nameToWire rr.name = set.owner.lower.encode ∧
          rr.ttl = set.originalTtl ∧
            set.addresses = [bytesFrom memory rr.rdata 4] := by
  rw [SignedSet.signedData, List.append_assoc, List.append_assoc,
    List.append_cancel_left_eq]
  constructor
  · intro same
    obtain ⟨sameSigner, sameRecords⟩ :=
      List.append_inj same set.signer.lower_encode_length.symm
    have signer : lowerLabels set.signer.labels = set.signer.labels :=
      encodeName_injective set.signer.lower.sized set.signer.sized
        sameSigner.symm
    obtain ⟨address, single⟩ :=
      carries.single_of_signedRecord member sameRecords
    have isAddress : address ∈ set.addresses := by
      rw [single]
      exact List.mem_singleton.mpr rfl
    rw [single, insertionSort_single, List.flatMap_singleton,
      carries.signedRecord_eq member, SignedSet.canonicalRecord]
      at sameRecords
    obtain ⟨sameFront, sameAddress⟩ :=
      List.append_inj' sameRecords (by
        rw [bytesFrom_length, set.addressLength address isAddress])
    have sameFront := List.append_cancel_right sameFront
    obtain ⟨sameFront, sameTtl⟩ := List.append_inj' sameFront rfl
    have sameName :=
      List.append_cancel_right (List.append_cancel_right sameFront)
    refine ⟨signer, sameName, bytes32_injective sameTtl, ?_⟩
    rw [single, sameAddress]
  · intro given
    obtain ⟨signer, sameName, sameTtl, single⟩ := given
    rw [single, insertionSort_single, List.flatMap_singleton,
      carries.signedRecord_eq member, SignedSet.canonicalRecord, sameName,
      sameTtl, WireName.lower_encode set.signer, signer]
    rfl

/-- The verdict is secure exactly on a set of one record as it was signed. -/
theorem secure_iff_asSigned
    {K : Type} (verify : K → Bytes → Bytes → Bool) (ctx : DnssecCtx K)
    (carries : Carries memory set msg rrsig records)
    (accepts : ∀ data,
      verify ctx.trustedKey data set.signature = true ↔
        data = set.signedData) :
    dnssecValidate verify memory (some ctx) msg = .secure ↔
      AsSigned set rrsig records := by
  rw [secure_iff]
  constructor
  · intro given
    obtain ⟨rr, other, first, verified⟩ := given
    obtain ⟨member, rfl⟩ := carries.firstSigned_mem first
    rw [carries.verifyRrsig_iff accepts,
      carries.signedData_eq_iff member] at verified
    obtain ⟨signer, rebuilt, sameTtl, single⟩ := verified
    have recordsLength : records.length = 1 := by
      have sizes := carries.addresses.length_eq
      rwa [List.length_map, single] at sizes
    obtain ⟨only, onlyIs⟩ := List.length_eq_one_iff.mp recordsLength
    have isOnly : rr = only := by
      rw [onlyIs] at member
      exact List.mem_singleton.mp member
    have plain : PlainLabels set.owner.labels := by
      apply plain_of_nameToWire _ rebuilt
      exact Nat.le_trans (carries.owner rr member).length_le
        set.owner.encode_length_le
    have sameName : rr.name = other.name := by
      obtain ⟨-, -, sameContent, -⟩ :=
        findRrsig_eq_some memory (firstSigned_eq_some memory first)
      rw [content_eq_self ((carries.owner rr member).noNul plain),
        content_eq_self (carries.rrsigOwner.noNul plain)] at sameContent
      exact sameContent.symm
    refine ⟨⟨only, onlyIs, ?_, ?_⟩, plain, signer⟩
    · rw [← isOnly]
      exact sameTtl
    · rw [← isOnly]
      exact sameName
  · intro given
    obtain ⟨⟨rr, single, sameTtl, sameName⟩, plain, signer⟩ := given
    have member : rr ∈ records := by
      rw [single]
      exact List.mem_singleton.mpr rfl
    have first : firstSigned memory msg = some (rr, rrsig) := by
      cases firstIs : firstSigned memory msg with
      | none =>
          have skipped :=
            List.findSome?_eq_none_iff.mp firstIs rr
              (carries.mem_answers.mpr (.inr member))
          rw [if_pos (carries.isAddress member),
            carries.findRrsig_of_sameName sameName] at skipped
          cases skipped
      | some both =>
          obtain ⟨other, signature⟩ := both
          obtain ⟨otherMember, rfl⟩ := carries.firstSigned_mem firstIs
          rw [single] at otherMember
          rw [List.mem_singleton.mp otherMember]
    refine ⟨rr, rrsig, first, ?_⟩
    rw [carries.verifyRrsig_iff accepts, carries.signedData_eq_iff member]
    refine ⟨signer, ?_, sameTtl, ?_⟩
    · exact (carries.owner rr member).rebuilt plain
    · have addresses := carries.addresses
      rw [single, List.map_singleton] at addresses
      exact addresses.symm.eq_singleton

end

/-- A records of `a.` with the algorithm and the TTL of the repository's own
signed response. -/
def signedA (addresses : List Bytes) (nonempty : addresses ≠ [])
    (distinct : addresses.Nodup)
    (addressLength : ∀ address, address ∈ addresses → address.length = 4) :
    SignedSet where
  owner := ⟨[[97]], by decide, by decide⟩
  rrclass := 1
  addresses := addresses
  algorithm := 8
  labels := 1
  originalTtl := 300
  expiration := 2
  inception := 1
  keyTag := 9
  signer := ⟨[[97]], by decide, by decide⟩
  signature := [77]
  nonempty := nonempty
  distinct := distinct
  addressLength := addressLength
  supported := .inl rfl
  fits := by
    have count : 18 + (encodeName [[97]]).length + [77].length = 22 := rfl
    exact Nat.le_trans (Nat.le_of_eq count) (by decide)

/-- One address: 192.0.2.1. -/
def signedSingle : SignedSet :=
  signedA [[192, 0, 2, 1]] (by decide) (by decide) (by decide)

/-- Two addresses: 192.0.2.1 and 192.0.2.2. -/
def signedPair : SignedSet :=
  signedA [[192, 0, 2, 1], [192, 0, 2, 2]] (by decide) (by decide) (by decide)

/-- The key has made signatures for the data of the set only. -/
def verifySet (set : SignedSet) (_ : Unit) (data _signature : Bytes) : Bool :=
  data = set.signedData

def packetWithSingle : Bytes :=
  [0, 7, 132, 0, 0, 0, 0, 2, 0, 0, 0, 0,
    1, 97, 0, 0, 1, 0, 1, 0, 0, 1, 44, 0, 4, 192, 0, 2, 1,
    1, 97, 0, 0, 46, 0, 1, 0, 0, 1, 44, 0, 22,
    0, 1, 8, 1, 0, 0, 1, 44, 0, 0, 0, 2, 0, 0, 0, 1, 0, 9, 1, 97, 0, 77]

theorem secure_iff_asSigned_single :
    dnssecValidate (verifySet signedSingle)
        (packetMemory packetWithSingle fun _ => 0) (some ⟨()⟩)
        ⟨⟨7, 33792, 0, 2, 0, 0⟩, [],
          [⟨[97, 46], 1, 1, 300, 4, 25⟩, ⟨[97, 46], 46, 1, 300, 22, 42⟩],
          [], []⟩ = .secure ↔
      AsSigned signedSingle ⟨[97, 46], 46, 1, 300, 22, 42⟩
        [⟨[97, 46], 1, 1, 300, 4, 25⟩] := by
  have spells : signedSingle.Spells [97, 46] := ⟨signedSingle.owner, rfl, rfl⟩
  apply secure_iff_asSigned (verifySet signedSingle) ⟨()⟩
  · refine
      ⟨List.Perm.swap _ _ _, rfl, spells, rfl, by decide, ?_, ?_, ?_, ?_, ?_,
        List.Perm.of_eq (by decide)⟩
    all_goals
      intro rr member
      obtain rfl := List.mem_singleton.mp member
    · rfl
    · rfl
    · exact spells
    · rfl
    · decide
  · intro data
    exact decide_eq_true_iff

/-- Every correctly signed set would validate. -/
def SignedSetsValidate : Prop :=
  ∀ (K : Type) (verify : K → Bytes → Bytes → Bool) (ctx : DnssecCtx K)
    (set : SignedSet) (packet : Bytes) (beyond : Nat → UInt8)
    (msg : DnsMessage) (rrsig : DnsRr) (records : List DnsRr),
    dnsParseMessage packet = .ok msg →
      Carries (packetMemory packet beyond) set msg rrsig records →
        (∀ data,
          verify ctx.trustedKey data set.signature = true ↔
            data = set.signedData) →
          dnssecValidate verify (packetMemory packet beyond) (some ctx) msg =
            .secure

def packetWithPair : Bytes :=
  [0, 7, 132, 0, 0, 0, 0, 3, 0, 0, 0, 0,
    1, 97, 0, 0, 1, 0, 1, 0, 0, 1, 44, 0, 4, 192, 0, 2, 1,
    1, 97, 0, 0, 1, 0, 1, 0, 0, 1, 44, 0, 4, 192, 0, 2, 2,
    1, 97, 0, 0, 46, 0, 1, 0, 0, 1, 44, 0, 22,
    0, 1, 8, 1, 0, 0, 1, 44, 0, 0, 0, 2, 0, 0, 0, 1, 0, 9, 1, 97, 0, 77]

theorem not_signedSetsValidate : ¬ SignedSetsValidate := by
  intro validate
  have parsed :
      dnsParseMessage packetWithPair =
        .ok
          ⟨⟨7, 33792, 0, 3, 0, 0⟩, [],
            [⟨[97, 46], 1, 1, 300, 4, 25⟩, ⟨[97, 46], 1, 1, 300, 4, 42⟩,
              ⟨[97, 46], 46, 1, 300, 22, 59⟩],
            [], []⟩ := by
    decide +kernel
  have spells : signedPair.Spells [97, 46] := ⟨signedPair.owner, rfl, rfl⟩
  have carries :
      Carries (packetMemory packetWithPair fun _ => 0) signedPair
        ⟨⟨7, 33792, 0, 3, 0, 0⟩, [],
          [⟨[97, 46], 1, 1, 300, 4, 25⟩, ⟨[97, 46], 1, 1, 300, 4, 42⟩,
            ⟨[97, 46], 46, 1, 300, 22, 59⟩],
          [], []⟩
        ⟨[97, 46], 46, 1, 300, 22, 59⟩
        [⟨[97, 46], 1, 1, 300, 4, 25⟩, ⟨[97, 46], 1, 1, 300, 4, 42⟩] := by
    refine
      ⟨by decide, rfl, spells, rfl, by decide, by decide, by decide, ?_,
        by decide, by decide, List.Perm.of_eq (by decide)⟩
    intro rr member
    rcases List.mem_cons.mp member with rfl | member
    · exact spells
    · rw [List.mem_singleton.mp member]
      exact spells
  have secure :=
    validate Unit (verifySet signedPair) ⟨()⟩ signedPair packetWithPair
      (fun _ => 0) _ _ _ parsed carries fun data => decide_eq_true_iff
  have bogus :
      dnssecValidate (verifySet signedPair)
          (packetMemory packetWithPair fun _ => 0) (some ⟨()⟩)
          ⟨⟨7, 33792, 0, 3, 0, 0⟩, [],
            [⟨[97, 46], 1, 1, 300, 4, 25⟩, ⟨[97, 46], 1, 1, 300, 4, 42⟩,
              ⟨[97, 46], 46, 1, 300, 22, 59⟩],
            [], []⟩ = .bogus := by
    decide +kernel
  rw [bogus] at secure
  cases secure

end DnsFirewall
