import DnsFirewall.Dnssec.Model
import DnsFirewall.Wire.Reader

/-!
# What a secure verdict covers

The loop of the validator ends with the first A record that has an RRSIG
record, so its verdict is about that record alone.
-/

namespace DnsFirewall

open CString BigEndian

variable {K : Type} (verify : K → Bytes → Bytes → Bool)
  (memory : Nat → UInt8)

/-- An A record with an address. -/
def DnsRr.isAddress (rr : DnsRr) : Bool :=
  rr.type = dnsTypeA && rr.rdlength = 4

/-- An RRSIG record of the answer section covers the A records of the owner,
and its signature is good for signed data that has the record in it. -/
def Covered (key : K) (msg : DnsMessage) (rr : DnsRr) : Prop :=
  ∃ rrsig, rrsig ∈ msg.answers ∧ rrsig.type = dnsTypeRrsig ∧
    content rrsig.name = content rr.name ∧ ¬ rrsig.rdlength < 2 ∧
      word16 (rdataByte memory rrsig 0) (rdataByte memory rrsig 1) =
          dnsTypeA ∧
        ∃ rrset, rr ∈ rrset ∧ verifyRrsig verify memory rrsig rrset key = true

/-- The first A record for which there is an RRSIG record, with that. -/
def firstSigned (msg : DnsMessage) : Option (DnsRr × DnsRr) :=
  msg.answers.findSome? fun rr =>
    if rr.isAddress = true then
      (findRrsig memory msg rr.name dnsTypeA).map fun rrsig => (rr, rrsig)
    else
      none

/-- Where the first A record with an RRSIG record is signed, all the others
are covered too. -/
def OthersCovered (key : K) (msg : DnsMessage) : Prop :=
  ∀ rr rrsig, firstSigned memory msg = some (rr, rrsig) →
    verifyRrsig verify memory rrsig [rr] key = true →
      ∀ other, other ∈ msg.answers → other.isAddress = true →
        other ≠ rr → Covered verify memory key msg other

theorem isAddress_iff {rr : DnsRr} :
    rr.isAddress = true ↔ rr.type = dnsTypeA ∧ rr.rdlength = 4 := by
  rw [DnsRr.isAddress, Bool.and_eq_true, decide_eq_true_iff,
    decide_eq_true_iff]

theorem findRrsig_eq_some
    {msg : DnsMessage} {name : Bytes} {type : UInt16} {rrsig : DnsRr}
    (found : findRrsig memory msg name type = some rrsig) :
    rrsig ∈ msg.answers ∧ rrsig.type = dnsTypeRrsig ∧
      content rrsig.name = content name ∧ ¬ rrsig.rdlength < 2 ∧
        word16 (rdataByte memory rrsig 0) (rdataByte memory rrsig 1) =
          type := by
  have holds := List.find?_some found
  have member := List.mem_of_find?_eq_some found
  simp only [Bool.and_eq_true, decide_eq_true_eq, Bool.not_eq_true',
    decide_eq_false_iff_not] at holds
  obtain ⟨⟨⟨isRrsig, sameOwner⟩, long⟩, covers⟩ := holds
  exact ⟨member, isRrsig, sameOwner, long, covers⟩

/-- The verdict is that on the first A record that has an RRSIG record. -/
theorem validateAnswers_eq
    (msg : DnsMessage) (key : K) (answers : List DnsRr) :
    validateAnswers verify memory msg key answers =
      match answers.findSome? fun rr =>
          if rr.isAddress = true then
            (findRrsig memory msg rr.name dnsTypeA).map
              fun rrsig => (rr, rrsig)
          else
            none with
      | none => .unsigned
      | some (rr, rrsig) =>
          if verifyRrsig verify memory rrsig [rr] key = true then .secure
          else .bogus := by
  induction answers with
  | nil => rfl
  | cons rr rest inductionHypothesis =>
      rw [validateAnswers, List.findSome?_cons]
      by_cases address : rr.isAddress = true
      · rw [if_pos (isAddress_iff.mp address), if_pos address]
        cases findRrsig memory msg rr.name dnsTypeA with
        | none => exact inductionHypothesis
        | some rrsig => rfl
      · rw [if_neg fun both => address (isAddress_iff.mpr both),
          if_neg address]
        exact inductionHypothesis

theorem dnssecValidate_eq (ctx : DnssecCtx K) (msg : DnsMessage) :
    dnssecValidate verify memory (some ctx) msg =
      match firstSigned memory msg with
      | none => .unsigned
      | some (rr, rrsig) =>
          if verifyRrsig verify memory rrsig [rr] ctx.trustedKey = true then
            .secure
          else
            .bogus := by
  rw [dnssecValidate]
  by_cases empty : msg.answers = []
  · rw [if_pos empty, firstSigned, empty]
    rfl
  · rw [if_neg empty, validateAnswers_eq, firstSigned]

theorem firstSigned_eq_some
    {msg : DnsMessage} {rr rrsig : DnsRr}
    (first : firstSigned memory msg = some (rr, rrsig)) :
    findRrsig memory msg rr.name dnsTypeA = some rrsig := by
  obtain ⟨other, -, found⟩ := List.exists_of_findSome?_eq_some first
  split at found
  · obtain ⟨signature, isFound, same⟩ := Option.map_eq_some_iff.mp found
    cases same
    exact isFound
  · cases found

theorem secure_iff {ctx : DnssecCtx K} {msg : DnsMessage} :
    dnssecValidate verify memory (some ctx) msg = .secure ↔
      ∃ rr rrsig, firstSigned memory msg = some (rr, rrsig) ∧
        verifyRrsig verify memory rrsig [rr] ctx.trustedKey = true := by
  rw [dnssecValidate_eq]
  cases firstSigned memory msg with
  | none =>
      constructor
      · intro same
        cases same
      · intro given
        obtain ⟨_, _, same, -⟩ := given
        cases same
  | some both =>
      obtain ⟨rr, rrsig⟩ := both
      simp only [Option.some.injEq, Prod.mk.injEq]
      constructor
      · intro same
        split at same
        · exact ⟨rr, rrsig, ⟨rfl, rfl⟩, ‹_›⟩
        · cases same
      · intro given
        obtain ⟨_, _, ⟨rfl, rfl⟩, verified⟩ := given
        rw [if_pos verified]

/-- A secure verdict covers every A record exactly when the record it is about
leaves no other one uncovered. -/
theorem secure_covers_iff (ctx : DnssecCtx K) (msg : DnsMessage) :
    (dnssecValidate verify memory (some ctx) msg = .secure →
        ∀ rr, rr ∈ msg.answers → rr.isAddress = true →
          Covered verify memory ctx.trustedKey msg rr) ↔
      OthersCovered verify memory ctx.trustedKey msg := by
  rw [secure_iff]
  constructor
  · intro covers rr rrsig first verified other member address _
    exact covers ⟨rr, rrsig, first, verified⟩ other member address
  · rintro others ⟨rr, rrsig, first, verified⟩ other member address
    by_cases same : other = rr
    · subst same
      have found := firstSigned_eq_some memory first
      obtain ⟨isAnswer, isRrsig, sameOwner, long, covers⟩ :=
        findRrsig_eq_some memory found
      exact
        ⟨rrsig, isAnswer, isRrsig, sameOwner, long, covers, [other],
          List.mem_singleton.mpr rfl, verified⟩
    · exact others rr rrsig first verified other member address same

/-- A secure verdict would cover every A record of every message. -/
def SecureCoversAll : Prop :=
  ∀ (K : Type) (verify : K → Bytes → Bytes → Bool) (ctx : DnssecCtx K)
    (packet : Bytes) (beyond : Nat → UInt8) (msg : DnsMessage),
    dnsParseMessage packet = .ok msg →
      dnssecValidate verify (packetMemory packet beyond) (some ctx) msg =
          .secure →
        ∀ rr, rr ∈ msg.answers → rr.isAddress = true →
          Covered verify (packetMemory packet beyond) ctx.trustedKey msg rr

/-- A signed A record of `a.`, its RRSIG record, and an A record of `b.`. -/
def packetWithForgery : Bytes :=
  [0, 7, 132, 0, 0, 0, 0, 3, 0, 0, 0, 0,
    1, 97, 0, 0, 1, 0, 1, 0, 0, 1, 44, 0, 4, 192, 0, 2, 1,
    1, 97, 0, 0, 46, 0, 1, 0, 0, 1, 44, 0, 20,
    0, 1, 8, 1, 0, 0, 1, 44, 0, 0, 0, 2, 0, 0, 0, 1, 0, 9, 0, 77,
    1, 98, 0, 0, 1, 0, 1, 0, 0, 1, 44, 0, 4, 6, 6, 6, 6]

/-- The key has made the signature 77 for the A record of `a.`. -/
def verifyA (_ : Unit) (data signature : Bytes) : Bool :=
  data =
      [0, 1, 8, 1, 0, 0, 1, 44, 0, 0, 0, 2, 0, 0, 0, 1, 0, 9, 0,
        1, 97, 0, 0, 1, 0, 1, 0, 0, 1, 44, 0, 4, 192, 0, 2, 1] &&
    signature = [77]

theorem not_secureCoversAll : ¬ SecureCoversAll := by
  intro covers
  have parsed :
      dnsParseMessage packetWithForgery =
        .ok
          ⟨⟨7, 33792, 0, 3, 0, 0⟩, [],
            [⟨[97, 46], 1, 1, 300, 4, 25⟩, ⟨[97, 46], 46, 1, 300, 20, 42⟩,
              ⟨[98, 46], 1, 1, 300, 4, 75⟩],
            [], []⟩ := by
    decide +kernel
  have secure :
      dnssecValidate verifyA (packetMemory packetWithForgery fun _ => 0)
          (some ⟨()⟩)
          ⟨⟨7, 33792, 0, 3, 0, 0⟩, [],
            [⟨[97, 46], 1, 1, 300, 4, 25⟩, ⟨[97, 46], 46, 1, 300, 20, 42⟩,
              ⟨[98, 46], 1, 1, 300, 4, 75⟩],
            [], []⟩ = .secure := by
    decide +kernel
  obtain ⟨rrsig, member, isRrsig, sameOwner, -⟩ :=
    covers Unit verifyA ⟨()⟩ packetWithForgery (fun _ => 0) _ parsed secure
      ⟨[98, 46], 1, 1, 300, 4, 75⟩ (by simp) (by decide)
  simp only [List.mem_cons, List.not_mem_nil, or_false] at member
  rcases member with rfl | rfl | rfl
  · exact absurd isRrsig (by decide)
  · exact absurd sameOwner (by decide)
  · exact absurd isRrsig (by decide)

end DnsFirewall
