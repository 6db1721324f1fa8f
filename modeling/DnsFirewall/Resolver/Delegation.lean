import DnsFirewall.Foundations.Selection
import DnsFirewall.Resolver.Model
import DnsFirewall.Wire.NameDecoder
import DnsFirewall.Wire.ParserSafety
import Mathlib.Data.List.Find

/-!
# The delegation that a reply carries

`build_ns_list` compares the owner of an address with the name of a server by
`strcmp`, byte for byte up to the first NUL.  Two domain names are the same
when their labels are the same without case.  The list is the delegation
exactly when, for every server, both comparisons lead to the same address.
-/

namespace DnsFirewall

open CString Cursor BigEndian Selection

/-! ## The delegation -/

/-- The names at the two places have the same labels without case. -/
def SameNameAt (raw : Bytes) (left right : Nat) : Prop :=
  ∃ leftLabels rightLabels,
    Decodes raw left leftLabels ∧ Decodes raw right rightLabels ∧
      leftLabels.map (List.map toLower) = rightLabels.map (List.map toLower)

/-- The offset of `dns_parse_message` in front of the additional records. -/
def additionalsOffset (raw : Bytes) : Except ReadError Nat := do
  let header ← readHeader raw
  let (_, offset) ← readMany (readQuestion raw) header.qdcount.toNat 12
  let (_, offset) ← readMany (readRr raw) header.ancount.toNat offset
  let (_, offset) ← readMany (readRr raw) header.nscount.toNat offset
  return offset

/-- Records that follow one another, each with the place of its owner name. -/
def withOwners : Nat → List DnsRr → List (Nat × DnsRr)
  | _, [] => []
  | start, rr :: rest =>
      (start, rr) :: withOwners (rr.rdata + rr.rdlength.toNat) rest

def ownedAdditionals (raw : Bytes) (response : DnsMessage) :
    List (Nat × DnsRr) :=
  match additionalsOffset raw with
  | .error _ => []
  | .ok start => withOwners start response.additionals

def GlueFor (raw : Bytes) (target : Nat) (glue : Nat × DnsRr) : Prop :=
  glue.2.type = dnsTypeA ∧ glue.2.rdlength = 4 ∧
    SameNameAt raw glue.1 target

open Classical in
/-- The first address record of four bytes that belongs to the name at the
target. -/
noncomputable def firstGlue (raw : Bytes) (response : DnsMessage)
    (target : Nat) : Option DnsRr :=
  ((ownedAdditionals raw response).find?
    fun glue => decide (GlueFor raw target glue)).map Prod.snd

def addressOf (raw : Bytes) (glue : DnsRr) : SockAddrIn :=
  ⟨sAddrOf (glue.rdataBytes raw), dnsPort⟩

/-- The server that an authority record names, with its address. -/
noncomputable def delegatedTo (raw : Bytes) (response : DnsMessage)
    (rr : DnsRr) : Option NsRecord :=
  if rr.type = dnsTypeNs then
    match decompressNameInRdata rr raw (dnsMaxNameLen + 1) with
    | none => none
    | some nsName =>
        (firstGlue raw response rr.rdata).map fun glue =>
          ⟨nsName, addressOf raw glue⟩
  else
    none

noncomputable def gluedDelegation (raw : Bytes) (response : DnsMessage) :
    List NsRecord :=
  response.authorities.filterMap (delegatedTo raw response)

/-- The value that `build_ns_list` returns. -/
def buildNsListValue (response : DnsMessage) (raw : Bytes) : Int :=
  if 0 < (buildNsList response raw).length then 0 else -1

/-! ## One server -/

/-- Both comparisons lead to no address, or to the same one, and the name is
all of its C string. -/
def GlueAgrees (raw : Bytes) (response : DnsMessage) (rr : DnsRr)
    (nsName : Bytes) : Prop :=
  (response.additionals.find? (isGlue nsName)).map (addressOf raw) =
      (firstGlue raw response rr.rdata).map (addressOf raw) ∧
    (0 ∈ nsName → firstGlue raw response rr.rdata = none)

theorem decompressed_length
    {rr : DnsRr} {raw nsName : Bytes}
    (decoded :
      decompressNameInRdata rr raw (dnsMaxNameLen + 1) = some nsName) :
    nsName.length < dnsMaxNameLen + 1 := by
  unfold decompressNameInRdata at decoded
  split at decoded
  · cases decoded
  · split at decoded
    · cases decoded
    · rename_i name stop read
      cases decoded
      exact (readName_ok (by decide) read).1

theorem content_eq_self_iff (text : Bytes) :
    content text = text ↔ 0 ∉ text := by
  constructor
  · intro same member
    rw [← same] at member
    exact ne_zero_of_mem_content member rfl
  · intro noNul
    apply content_eq_self
    intro character member same
    subst same
    exact noNul member

/-- The entry of a record whose target decodes. -/
theorem nsRecordOf_of_decoded
    {response : DnsMessage} {raw : Bytes} {rr : DnsRr} {nsName : Bytes}
    (isNs : rr.type = dnsTypeNs)
    (decoded :
      decompressNameInRdata rr raw (dnsMaxNameLen + 1) = some nsName) :
    nsRecordOf response raw rr =
      (response.additionals.find? (isGlue nsName)).map fun glue =>
        ⟨content nsName, addressOf raw glue⟩ := by
  have short : (content nsName).length < dnsMaxNameLen + 1 :=
    Nat.lt_of_le_of_lt (content_length_le nsName)
      (decompressed_length decoded)
  rw [nsRecordOf]
  rw [if_pos isNs, decoded]
  simp only [boundedCopy_eq_self short]
  cases response.additionals.find? (isGlue nsName) with
  | none => rfl
  | some glue => rfl

theorem delegatedTo_of_decoded
    {response : DnsMessage} {raw : Bytes} {rr : DnsRr} {nsName : Bytes}
    (isNs : rr.type = dnsTypeNs)
    (decoded :
      decompressNameInRdata rr raw (dnsMaxNameLen + 1) = some nsName) :
    delegatedTo raw response rr =
      (firstGlue raw response rr.rdata).map fun glue =>
        ⟨nsName, addressOf raw glue⟩ := by
  rw [delegatedTo]
  rw [if_pos isNs, decoded]

/-- A record without a name in it has no entry in either list. -/
theorem entries_of_undecoded
    {response : DnsMessage} {raw : Bytes} {rr : DnsRr}
    (undecoded :
      rr.type ≠ dnsTypeNs ∨
        decompressNameInRdata rr raw (dnsMaxNameLen + 1) = none) :
    nsRecordOf response raw rr = none ∧
      delegatedTo raw response rr = none := by
  rw [nsRecordOf, delegatedTo]
  by_cases isNs : rr.type = dnsTypeNs
  · rw [if_pos isNs, if_pos isNs,
      undecoded.resolve_left (fun other => other isNs)]
    exact ⟨rfl, rfl⟩
  · rw [if_neg isNs, if_neg isNs]
    exact ⟨rfl, rfl⟩

theorem entry_eq_iff
    {response : DnsMessage} {raw : Bytes} {rr : DnsRr} {nsName : Bytes}
    (isNs : rr.type = dnsTypeNs)
    (decoded :
      decompressNameInRdata rr raw (dnsMaxNameLen + 1) = some nsName) :
    nsRecordOf response raw rr = delegatedTo raw response rr ↔
      GlueAgrees raw response rr nsName := by
  rw [nsRecordOf_of_decoded isNs decoded,
    delegatedTo_of_decoded isNs decoded]
  rw [GlueAgrees]
  generalize response.additionals.find? (isGlue nsName) = byText
  generalize firstGlue raw response rr.rdata = byName
  cases byText with
  | none =>
      cases byName with
      | none => simp
      | some glue => simp
  | some found =>
      cases byName with
      | none => simp
      | some glue =>
          simp only [Option.map_some, Option.some.injEq, NsRecord.mk.injEq,
            content_eq_self_iff, reduceCtorEq, imp_false]
          exact and_comm

/-! ## The list -/

/-- What `build_ns_list` does with a record depends on the C string of its
target alone. -/
theorem nsRecordOf_crossed (response : DnsMessage) (raw : Bytes) :
    Crossed (nsRecordOf response raw) (delegatedTo raw response) := by
  intro rr other result delegated found
  have decodes :
      ∀ record : DnsRr,
        (nsRecordOf response raw record = some result ∨
            delegatedTo raw response record = some result) →
          ∃ nsName,
            record.type = dnsTypeNs ∧
              decompressNameInRdata record raw (dnsMaxNameLen + 1) =
                some nsName := by
    intro record yields
    by_cases isNs : record.type = dnsTypeNs
    · cases decoded :
        decompressNameInRdata record raw (dnsMaxNameLen + 1) with
      | some nsName => exact ⟨nsName, isNs, rfl⟩
      | none =>
          obtain ⟨nothing, nowhere⟩ :=
            @entries_of_undecoded response raw record (Or.inr decoded)
          rw [nothing, nowhere, or_self] at yields
          cases yields
    · obtain ⟨nothing, nowhere⟩ :=
        @entries_of_undecoded response raw record (Or.inl isNs)
      rw [nothing, nowhere, or_self] at yields
      cases yields
  obtain ⟨nsName, isNs, decoded⟩ := decodes rr (Or.inr delegated)
  obtain ⟨otherName, otherIsNs, otherDecoded⟩ := decodes other (Or.inl found)
  rw [delegatedTo_of_decoded isNs decoded,
    Option.map_eq_some_iff] at delegated
  rw [nsRecordOf_of_decoded otherIsNs otherDecoded] at found
  obtain ⟨glue, -, isResult⟩ := delegated
  have name : content otherName = nsName := by
    obtain ⟨otherGlue, -, isOther⟩ := Option.map_eq_some_iff.mp found
    exact congrArg NsRecord.name (isOther.trans isResult.symm)
  have sameGlue : isGlue otherName = isGlue nsName := by
    funext candidate
    unfold isGlue
    rw [← name, content_content]
  rw [nsRecordOf_of_decoded isNs decoded, ← found, sameGlue, ← name,
    content_content]

theorem buildNsListValue_eq_zero_iff (response : DnsMessage) (raw : Bytes) :
    buildNsListValue response raw = 0 ↔ buildNsList response raw ≠ [] := by
  rw [buildNsListValue]
  split
  · rename_i filled
    exact iff_of_true rfl (List.length_pos_iff.mp filled)
  · rename_i empty
    exact iff_of_false (by decide) (fun filled => empty (List.length_pos_iff.mpr filled))

theorem buildNsList_eq_iff (raw : Bytes) (response : DnsMessage) :
    buildNsList response raw = gluedDelegation raw response ↔
      ∀ rr, rr ∈ response.authorities → rr.type = dnsTypeNs →
        ∀ nsName,
          decompressNameInRdata rr raw (dnsMaxNameLen + 1) =
              some nsName →
            GlueAgrees raw response rr nsName := by
  have pointwise :=
    filterMap_eq_filterMap_iff (nsRecordOf_crossed response raw)
      response.authorities
  constructor
  · intro sameList rr member isNs nsName decoded
    exact
      (entry_eq_iff isNs decoded).mp (pointwise.mp sameList rr member)
  · intro agree
    apply pointwise.mpr
    intro rr member
    by_cases isNs : rr.type = dnsTypeNs
    · cases decoded :
        decompressNameInRdata rr raw (dnsMaxNameLen + 1) with
      | none =>
          obtain ⟨nothing, nowhere⟩ :=
            @entries_of_undecoded response raw rr (Or.inr decoded)
          rw [nothing, nowhere]
      | some nsName =>
          exact
            (entry_eq_iff isNs decoded).mpr
              (agree rr member isNs nsName decoded)
    · obtain ⟨nothing, nowhere⟩ :=
        @entries_of_undecoded response raw rr (Or.inl isNs)
      rw [nothing, nowhere]

/-- The list is the glued delegation, and zero says that there is one, exactly
when both comparisons agree on every server that decodes. -/
theorem buildNsList_glued_iff (raw : Bytes) (response : DnsMessage) :
    (buildNsList response raw = gluedDelegation raw response ∧
        (buildNsListValue response raw = 0 ↔
          gluedDelegation raw response ≠ [])) ↔
      ∀ rr, rr ∈ response.authorities → rr.type = dnsTypeNs →
        ∀ nsName,
          decompressNameInRdata rr raw (dnsMaxNameLen + 1) =
              some nsName →
            GlueAgrees raw response rr nsName := by
  rw [← buildNsList_eq_iff]
  constructor
  · exact fun both => both.1
  · intro sameList
    refine ⟨sameList, ?_⟩
    rw [buildNsListValue_eq_zero_iff, sameList]

/-- The delegation to the server `N.`, and the address of `n.`. -/
def mixedCasePacket : Bytes :=
  [0, 0, 0, 0, 0, 0, 0, 0, 0, 1, 0, 1,
    0, 0, 2, 0, 1, 0, 0, 0, 60, 0, 3, 1, 78, 0,
    1, 110, 0, 0, 1, 0, 1, 0, 0, 0, 60, 0, 4, 6, 6, 6, 6]

def mixedCaseMessage : DnsMessage where
  header := ⟨0, 0, 0, 0, 1, 1⟩
  questions := []
  answers := []
  authorities := [⟨[46], dnsTypeNs, dnsClassIn, 60, 3, 23⟩]
  additionals := [⟨[110, 46], dnsTypeA, dnsClassIn, 60, 4, 39⟩]

theorem sameNameAt_mixedCase : SameNameAt mixedCasePacket 26 23 := by
  have owner : Decodes mixedCasePacket 26 [[110]] :=
    @Decodes.label mixedCasePacket 26 1 [] rfl (by decide) (by decide)
      (by decide) (.root rfl)
  have target : Decodes mixedCasePacket 23 [[78]] :=
    @Decodes.label mixedCasePacket 23 1 [] rfl (by decide) (by decide)
      (by decide) (.root rfl)
  exact ⟨_, _, owner, target, by decide⟩

/-- The address belongs to the server, and the server is left out. -/
theorem buildNsList_misses_mixedCase :
    ¬ ∀ (raw : Bytes) (response : DnsMessage),
      dnsParseMessage raw = .ok response →
        buildNsList response raw = gluedDelegation raw response ∧
          (buildNsListValue response raw = 0 ↔
            gluedDelegation raw response ≠ []) := by
  intro glued
  have parsed : dnsParseMessage mixedCasePacket = .ok mixedCaseMessage := by
    decide +kernel
  have missed : buildNsList mixedCaseMessage mixedCasePacket = [] := by
    decide +kernel
  obtain ⟨sameList, -⟩ := glued mixedCasePacket mixedCaseMessage parsed
  rw [missed] at sameList
  have start : additionalsOffset mixedCasePacket = .ok 26 := by
    decide +kernel
  have decoded :
      decompressNameInRdata ⟨[46], dnsTypeNs, dnsClassIn, 60, 3, 23⟩
        mixedCasePacket (dnsMaxNameLen + 1) = some [78, 46] := by
    decide +kernel
  have glue :
      GlueFor mixedCasePacket 23
        (26, ⟨[110, 46], dnsTypeA, dnsClassIn, 60, 4, 39⟩) :=
    ⟨rfl, rfl, sameNameAt_mixedCase⟩
  have found :
      firstGlue mixedCasePacket mixedCaseMessage 23 =
        some ⟨[110, 46], dnsTypeA, dnsClassIn, 60, 4, 39⟩ := by
    rw [firstGlue, ownedAdditionals]
    rw [start]
    simp [mixedCaseMessage, withOwners, glue]
  have delegated :=
    @delegatedTo_of_decoded mixedCaseMessage mixedCasePacket _ _ rfl decoded
  rw [found] at delegated
  unfold gluedDelegation at sameList
  simp only [mixedCaseMessage, List.filterMap_cons] at sameList delegated
  rw [delegated] at sameList
  cases sameList

/-! ## Ordinary delegations -/

theorem PlainLabels.not_mem
    {labels : List Bytes} (plain : PlainLabels labels) {label : Bytes}
    (member : label ∈ labels) : 0 ∉ label ∧ 46 ∉ label :=
  ⟨fun isNul => (plain label member 0 isNul).2 rfl,
    fun isDot => (plain label member 46 isDot).1 rfl⟩

theorem decodes_filled
    {raw : Bytes} {pos : Nat} {labels : List Bytes}
    (decodes : Decodes raw pos labels) : [] ∉ labels := by
  induction decodes with
  | root _ => exact List.not_mem_nil
  | label _ positive _ inside _ inductionHypothesis =>
      intro member
      rcases List.mem_cons.mp member with empty | later
      · have length := congrArg List.length empty
        rw [List.length_nil, List.length_take, List.length_drop] at length
        omega
      · exact inductionHypothesis later
  | pointer _ _ _ _ inductionHypothesis => exact inductionHypothesis

theorem nameText_injective
    {left right : List Bytes} (leftPlain : PlainLabels left)
    (rightPlain : PlainLabels right)
    (same : nameText left = nameText right) : left = right := by
  induction left generalizing right with
  | nil =>
      cases right with
      | nil => rfl
      | cons label labels => simp [nameText] at same
  | cons label labels inductionHypothesis =>
      cases right with
      | nil => simp [nameText] at same
      | cons other others =>
          have cut :
              ∀ {first : Bytes} {rest : Bytes}, 46 ∉ first →
                (first ++ 46 :: rest).splitOn 46 =
                  first :: rest.splitOn 46 :=
            fun absent => List.splitOn_append_cons_self_of_not_mem absent _
          have pieces := congrArg (List.splitOn 46) same
          rw [nameText, nameText, cut (leftPlain.not_mem List.mem_cons_self).2,
            cut (rightPlain.not_mem List.mem_cons_self).2] at pieces
          injection pieces with heads tails
          subst heads
          rw [nameText, nameText] at same
          rw [inductionHypothesis
            (fun item member =>
              leftPlain item (List.mem_cons_of_mem label member))
            (fun item member =>
              rightPlain item (List.mem_cons_of_mem label member))
            (List.cons_injective (List.append_cancel_left same))]

/-- Plain names are spelled differently when their labels differ. -/
theorem spelled_injective
    {raw : Bytes} {leftAt rightAt : Nat} {left right : List Bytes}
    (leftDecodes : Decodes raw leftAt left)
    (rightDecodes : Decodes raw rightAt right)
    (leftPlain : PlainLabels left) (rightPlain : PlainLabels right)
    (same : spelled (nameText left) = spelled (nameText right)) :
    left = right := by
  have notRoot :
      ∀ {pos : Nat} {label : Bytes} {labels : List Bytes},
        Decodes raw pos (label :: labels) →
          nameText (label :: labels) ≠ [46] := by
    intro pos label labels decodes text
    have lengths := congrArg List.length text
    simp only [nameText, List.length_append, List.length_cons,
      List.length_nil] at lengths
    have empty : label = [] := List.length_eq_zero_iff.mp (by omega)
    exact decodes_filled decodes (by rw [empty]; exact List.mem_cons_self)
  have named : ∀ (label : Bytes) (labels : List Bytes),
      spelled (nameText (label :: labels)) = nameText (label :: labels) := by
    intro label labels
    exact if_neg (by simp [nameText])
  cases left with
  | nil =>
      cases right with
      | nil => rfl
      | cons other others =>
          rw [named] at same
          exact absurd same.symm (notRoot rightDecodes)
  | cons label labels =>
      cases right with
      | nil =>
          rw [named] at same
          exact absurd same (notRoot leftDecodes)
      | cons other others =>
          rw [named, named] at same
          exact nameText_injective leftPlain rightPlain same

theorem zero_not_mem_spelled
    {labels : List Bytes} (plain : PlainLabels labels) :
    0 ∉ spelled (nameText labels) := by
  have text : 0 ∉ nameText labels := by
    induction labels with
    | nil => exact List.not_mem_nil
    | cons label labels inductionHypothesis =>
        rw [nameText, List.mem_append, List.mem_cons]
        intro given
        rcases given with inLabel | isDot | later
        · exact (plain.not_mem List.mem_cons_self).1 inLabel
        · cases isDot
        · exact
            inductionHypothesis
              (fun other member =>
                plain other (List.mem_cons_of_mem label member))
              later
  rw [spelled]
  split
  · decide
  · exact text

theorem map_snd_withOwners (start : Nat) (rrs : List DnsRr) :
    (withOwners start rrs).map Prod.snd = rrs := by
  induction rrs generalizing start with
  | nil => rfl
  | cons rr rest inductionHypothesis =>
      rw [withOwners, List.map_cons, inductionHypothesis]

/-- A record starts with its name. -/
theorem readName_of_readRr
    {raw : Bytes} {start stop : Nat} {rr : DnsRr}
    (read : readRr raw start = .ok (rr, stop)) :
    ∃ next, readName raw dnsMaxNameLen start = .ok (rr.name, next) := by
  unfold readRr at read
  obtain ⟨⟨name, offset⟩, isName, passed⟩ := bind_eq_ok.mp read
  simp only at passed
  split at passed
  · cases passed
  · obtain ⟨type, -, passed⟩ := bind_eq_ok.mp passed
    obtain ⟨rrclass, -, passed⟩ := bind_eq_ok.mp passed
    obtain ⟨ttl, -, passed⟩ := bind_eq_ok.mp passed
    obtain ⟨rdlength, -, passed⟩ := bind_eq_ok.mp passed
    split at passed
    · cases passed
    · cases passed
      exact ⟨offset, isName⟩

/-- The owner of a record stands at its place and is spelled in its name. -/
def OwnerAt (raw : Bytes) (owned : Nat × DnsRr) : Prop :=
  ∃ labels, Decodes raw owned.1 labels ∧
    owned.2.name = spelled (nameText labels)

theorem ownerAt_of_mem_withOwners
    {raw : Bytes} {start stop : Nat} {rrs : List DnsRr}
    (tiling : Tiling (RecordSpan raw) start rrs stop)
    {owned : Nat × DnsRr} (member : owned ∈ withOwners start rrs) :
    OwnerAt raw owned := by
  induction tiling with
  | nil start => cases member
  | @cons start next stop rr rest span _ _ inductionHypothesis =>
      rw [withOwners, span.atEnd] at member
      rcases List.mem_cons.mp member with rfl | later
      · obtain ⟨next, read⟩ := readName_of_readRr span.reads
        obtain ⟨labels, decodes, text, -⟩ := decodes_of_readName read
        exact ⟨labels, decodes, text⟩
      · exact inductionHypothesis later

theorem ownedAdditionals_of_parsed
    {raw : Bytes} {response : DnsMessage}
    (parsed : dnsParseMessage raw = .ok response) :
    (ownedAdditionals raw response).map Prod.snd = response.additionals ∧
      ∀ owned, owned ∈ ownedAdditionals raw response →
        OwnerAt raw owned := by
  obtain ⟨-, header, answersAt, authoritiesAt, additionalsAt, stop,
    questions, answers, authorities, additionals⟩ :=
    dnsParseMessage_eq_ok parsed
  have start : additionalsOffset raw = .ok additionalsAt := by
    rw [additionalsOffset]
    simp only [header, questions, answers, authorities, bind, Except.bind,
      pure, Except.pure]
  rw [ownedAdditionals]
  rw [start]
  refine ⟨map_snd_withOwners _ _, ?_⟩
  intro owned member
  exact
    ownerAt_of_mem_withOwners (recordTiling_of_readMany additionals).2
      member

/-- The names are plain, and the addresses are written under the very names
of the servers. -/
structure OrdinaryDelegation (raw : Bytes) (response : DnsMessage) :
    Prop where
  targets :
    ∀ rr, rr ∈ response.authorities → rr.type = dnsTypeNs →
      ∀ labels, Decodes raw rr.rdata labels → PlainLabels labels
  owners :
    ∀ glue, glue ∈ ownedAdditionals raw response →
      ∀ labels, Decodes raw glue.1 labels → PlainLabels labels
  sameCase :
    ∀ rr, rr ∈ response.authorities → rr.type = dnsTypeNs →
      ∀ glue, glue ∈ ownedAdditionals raw response →
        SameNameAt raw glue.1 rr.rdata →
          ∀ labels, Decodes raw rr.rdata labels →
            Decodes raw glue.1 labels

theorem decodes_of_decompressed
    {rr : DnsRr} {raw nsName : Bytes}
    (decoded :
      decompressNameInRdata rr raw (dnsMaxNameLen + 1) = some nsName) :
    ∃ labels, Decodes raw rr.rdata labels ∧
      nsName = spelled (nameText labels) := by
  unfold decompressNameInRdata at decoded
  split at decoded
  · cases decoded
  · split at decoded
    · cases decoded
    · rename_i name stop read
      cases decoded
      obtain ⟨labels, decodes, text, -⟩ := decodes_of_readName read
      exact ⟨labels, decodes, text⟩

/-- From an ordinary reply the resolver takes the whole delegation. -/
theorem buildNsList_of_ordinary
    {raw : Bytes} {response : DnsMessage}
    (parsed : dnsParseMessage raw = .ok response)
    (ordinary : OrdinaryDelegation raw response) :
    buildNsList response raw = gluedDelegation raw response := by
  obtain ⟨records, owners⟩ := ownedAdditionals_of_parsed parsed
  rw [buildNsList_eq_iff]
  intro rr member isNs nsName decoded
  obtain ⟨labels, decodes, rfl⟩ := decodes_of_decompressed decoded
  have plain := ordinary.targets rr member isNs labels decodes
  have sameTest :
      ∀ glue, glue ∈ ownedAdditionals raw response →
        (isGlue (spelled (nameText labels)) glue.2 = true ↔
          GlueFor raw rr.rdata glue) := by
    intro glue inSection
    obtain ⟨ownerLabels, ownerDecodes, ownerName⟩ := owners glue inSection
    have ownerPlain :=
      ordinary.owners glue inSection ownerLabels ownerDecodes
    have sameText :
        content glue.2.name = content (spelled (nameText labels)) ↔
          SameNameAt raw glue.1 rr.rdata := by
      rw [ownerName,
        (content_eq_self_iff _).mpr (zero_not_mem_spelled ownerPlain),
        (content_eq_self_iff _).mpr (zero_not_mem_spelled plain)]
      constructor
      · intro same
        have sameLabels :=
          spelled_injective ownerDecodes decodes ownerPlain plain same
        exact ⟨_, _, ownerDecodes, decodes, by rw [sameLabels]⟩
      · intro same
        have sameLabels :=
          (ordinary.sameCase rr member isNs glue inSection same labels
            decodes).unique ownerDecodes
        rw [sameLabels]
    rw [isGlue, GlueFor]
    rw [Bool.and_eq_true, Bool.and_eq_true, decide_eq_true_iff,
      decide_eq_true_iff, decide_eq_true_iff, sameText]
    exact
      ⟨fun test => ⟨test.1.1, test.2, test.1.2⟩,
        fun test => ⟨⟨test.1, test.2.2⟩, test.2.1⟩⟩
  have sameGlue :
      response.additionals.find? (isGlue (spelled (nameText labels))) =
        firstGlue raw response rr.rdata := by
    rw [firstGlue]
    rw [← records, List.find?_map]
    congr 1
    apply List.find?_congr
    intro glue inSection
    rw [Bool.eq_iff_iff, Function.comp_apply, sameTest glue inSection]
    exact (@decide_eq_true_iff _ (Classical.propDecidable _)).symm
  refine ⟨by rw [sameGlue], ?_⟩
  intro hasNul
  exact absurd hasNul (zero_not_mem_spelled plain)

end DnsFirewall
