import DnsFirewall.Resolver.Model
import DnsFirewall.Wire.NameDecoder

/-!
# Names in the RDATA of a record

`decompress_name_in_rdata` starts at the RDATA of an NS or CNAME record but is
bounded by the packet only.  The name that it takes lies in the record when
the RDATA is the encoding of one name, with nothing missing and nothing behind
it.
-/

namespace DnsFirewall

open CString Cursor

/-! ## The part of a name in place -/

namespace InPlace

variable {pkt : Bytes} {pos stop : Nat}

theorem lt (ends : InPlace pkt pos stop) : pos < stop := by
  induction ends with
  | root => omega
  | label _ _ _ _ inductionHypothesis => omega
  | pointer => omega

theorem unique
    (first : InPlace pkt pos stop) :
    ∀ {other : Nat}, InPlace pkt pos other → other = stop := by
  induction first with
  | root zero =>
      intro other second
      cases second with
      | root => rfl
      | label there positive | pointer there positive =>
          rw [zero] at there
          cases there
          simp at positive
  | label here positive short _ inductionHypothesis =>
      intro other second
      cases second with
      | root there =>
          rw [here] at there
          cases there
          simp at positive
      | label there _ _ rest =>
          rw [here] at there
          cases there
          exact inductionHypothesis rest
      | pointer there high =>
          rw [here] at there
          cases there
          omega
  | pointer here high =>
      intro other second
      cases second with
      | root there =>
          rw [here] at there
          cases there
          simp at high
      | label there _ short =>
          rw [here] at there
          cases there
          omega
      | pointer => rfl

end InPlace

/-- The bytes are one name up to its root byte or its first pointer, and
nothing else. -/
inductive SoleName : Bytes → Prop where
  | root : SoleName [0]
  | label {len : UInt8} {bytes rest : Bytes} :
      0 < len.toNat → len.toNat < 64 → bytes.length = len.toNat →
        SoleName rest → SoleName (len :: (bytes ++ rest))
  | pointer {high low : UInt8} :
      high.toNat / 64 = 3 → SoleName [high, low]

theorem getElem?_of_drop_eq_cons
    {pkt rest : Bytes} {pos : Nat} {byte : UInt8}
    (here : pkt.drop pos = byte :: rest) :
    pkt[pos]? = some byte := by
  have head : (pkt.drop pos)[0]? = some byte := by
    rw [here]
    rfl
  rw [List.getElem?_drop] at head
  exact head

theorem drop_eq_cons_of_getElem?
    {pkt : Bytes} {pos : Nat} {byte : UInt8}
    (here : pkt[pos]? = some byte) :
    pkt.drop pos = byte :: pkt.drop (pos + 1) := by
  obtain ⟨inside, isByte⟩ := List.getElem?_eq_some_iff.mp here
  rw [List.drop_eq_getElem_cons inside, isByte]

/-- A part in place that ends inside the packet is a name of its own. -/
theorem InPlace.soleName
    {pkt : Bytes} {pos stop : Nat}
    (ends : InPlace pkt pos stop) (inside : stop ≤ pkt.length) :
    SoleName ((pkt.drop pos).take (stop - pos)) := by
  induction ends with
  | @root pos zero =>
      rw [drop_eq_cons_of_getElem? zero, Nat.add_sub_cancel_left]
      exact .root
  | @label pos stop len here positive short rest inductionHypothesis =>
      have before := rest.lt
      have size :
          stop - pos =
            len.toNat + (stop - (pos + 1 + len.toNat)) + 1 := by
        omega
      have fits : ((pkt.drop (pos + 1)).take len.toNat).length = len.toNat := by
        rw [List.length_take, List.length_drop]
        omega
      rw [drop_eq_cons_of_getElem? here, size, List.take_succ_cons,
        List.take_add, List.drop_drop]
      exact .label positive short fits (inductionHypothesis inside)
  | @pointer pos high here isPointer =>
      have next : pkt[pos + 1]? = some (pkt[pos + 1]) :=
        List.getElem?_eq_getElem (by omega)
      rw [drop_eq_cons_of_getElem? here, drop_eq_cons_of_getElem? next,
        Nat.add_sub_cancel_left]
      exact .pointer isPointer

/-- A name that stands in the packet ends in place with its last byte. -/
theorem SoleName.inPlace
    {pkt bytes : Bytes} (sole : SoleName bytes) {pos : Nat} {rest : Bytes}
    (stands : pkt.drop pos = bytes ++ rest) :
    InPlace pkt pos (pos + bytes.length) := by
  induction sole generalizing pos with
  | root => exact .root (getElem?_of_drop_eq_cons stands)
  | @label len bytes tail positive short length _ inductionHypothesis =>
      rw [List.cons_append, List.append_assoc] at stands
      have here := getElem?_of_drop_eq_cons stands
      have behind : pkt.drop (pos + 1 + len.toNat) = tail ++ rest := by
        rw [← List.drop_drop, ← List.drop_drop, stands, List.drop_succ_cons,
          List.drop_zero, ← length, List.drop_left]
      have ends :=
        InPlace.label here positive short (inductionHypothesis behind)
      have size :
          pos + (len :: (bytes ++ tail)).length =
            pos + 1 + len.toNat + tail.length := by
        rw [List.length_cons, List.length_append, length]
        omega
      rw [size]
      exact ends
  | pointer isPointer =>
      exact .pointer (getElem?_of_drop_eq_cons stands) isPointer

theorem inPlace_iff_soleName
    {pkt : Bytes} {pos count : Nat} (inside : pos + count ≤ pkt.length) :
    InPlace pkt pos (pos + count) ↔ SoleName ((pkt.drop pos).take count) := by
  constructor
  · intro ends
    have sole := ends.soleName inside
    rw [Nat.add_sub_cancel_left] at sole
    exact sole
  · intro sole
    have ends := sole.inPlace (List.take_append_drop count _).symm
    rw [List.length_take, List.length_drop,
      Nat.min_eq_left (by omega)] at ends
    exact ends

/-! ## Records of a reply -/

theorem rdata_inside_of_dnsParseMessage
    {raw : Bytes} {msg : DnsMessage} {rr : DnsRr}
    (parsed : dnsParseMessage raw = .ok msg)
    (member : rr ∈ msg.answers ++ msg.authorities ++ msg.additionals) :
    rr.rdata + rr.rdlength.toNat ≤ raw.length := by
  obtain ⟨_, _, span⟩ := exists_recordSpan_of_mem parsed member
  rw [span.atEnd]
  exact (recordSpan_of_readRr span.reads).2.2

/-- If a name is taken from the record, its encoding in place starts at the
RDATA and ends with it. -/
def TakenFromRdata (raw : Bytes) (rr : DnsRr) : Prop :=
  ∀ name,
    decompressNameInRdata rr raw (dnsMaxNameLen + 1) = some name →
      ∀ stop,
        InPlace raw rr.rdata stop ↔ stop = rr.rdata + rr.rdlength.toNat

/-- A name that is taken from a record of an accepted packet lies in the
record exactly when the RDATA is the encoding of one name. -/
theorem takenFromRdata_iff
    {raw name : Bytes} {msg : DnsMessage} {rr : DnsRr}
    (parsed : dnsParseMessage raw = .ok msg)
    (member : rr ∈ msg.answers ++ msg.authorities ++ msg.additionals)
    (decoded :
      decompressNameInRdata rr raw (dnsMaxNameLen + 1) = some name) :
    TakenFromRdata raw rr ↔ SoleName (rr.rdataBytes raw) := by
  rw [DnsRr.rdataBytes,
    ← inPlace_iff_soleName (rdata_inside_of_dnsParseMessage parsed member)]
  constructor
  · intro taken
    exact (taken name decoded _).mpr rfl
  · intro ends other _ stop
    constructor
    · intro alsoEnds
      exact ends.unique alsoEnds
    · intro same
      rw [same]
      exact ends

/-- A reply with an alias whose target points at the question. -/
def aliasReply : Bytes :=
  [0, 0, 129, 128, 0, 1, 0, 1, 0, 0, 0, 0,
    1, 97, 0, 0, 1, 0, 1,
    1, 98, 0, 0, 5, 0, 1, 0, 0, 0, 0, 0, 4, 1, 99, 192, 12]

def pointedAlias : DnsRr := ⟨[98, 46], dnsTypeCname, dnsClassIn, 0, 4, 32⟩

theorem takenFromRdata_iff_pointedAlias :
    TakenFromRdata aliasReply pointedAlias ↔
      SoleName (pointedAlias.rdataBytes aliasReply) :=
  @takenFromRdata_iff aliasReply [99, 46, 97, 46]
    ⟨⟨0, 33152, 1, 1, 0, 0⟩, [⟨[97, 46], dnsTypeA, dnsClassIn⟩],
      [pointedAlias], [], []⟩
    pointedAlias (by decide +kernel) (by decide +kernel) (by decide +kernel)

/-- A reply with an alias without RDATA in front of an address of `b`. -/
def emptyAliasReply : Bytes :=
  [0, 0, 129, 128, 0, 0, 0, 2, 0, 0, 0, 0,
    1, 97, 0, 0, 5, 0, 1, 0, 0, 0, 0, 0, 0,
    1, 98, 0, 0, 1, 0, 1, 0, 0, 0, 0, 0, 4, 10, 0, 0, 1]

def emptyAlias : DnsRr := ⟨[97, 46], dnsTypeCname, dnsClassIn, 0, 0, 25⟩

theorem not_takenFromRdata_emptyAlias :
    ¬ ∀ (raw : Bytes) (msg : DnsMessage) (rr : DnsRr),
      dnsParseMessage raw = .ok msg →
        rr ∈ msg.answers ++ msg.authorities ++ msg.additionals →
          rr.type = dnsTypeNs ∨ rr.type = dnsTypeCname →
            TakenFromRdata raw rr := by
  intro always
  have taken :=
    always emptyAliasReply
      ⟨⟨0, 33152, 0, 2, 0, 0⟩, [],
        [emptyAlias, ⟨[98, 46], dnsTypeA, dnsClassIn, 0, 4, 38⟩], [], []⟩
      emptyAlias (by decide +kernel) (by decide +kernel) (Or.inr rfl)
  -- the name is the owner of the record behind
  have decoded :
      decompressNameInRdata emptyAlias emptyAliasReply (dnsMaxNameLen + 1) =
        some [98, 46] := by
    decide +kernel
  have ends := (taken [98, 46] decoded 25).mpr rfl
  exact absurd ends.lt (by decide)

end DnsFirewall
