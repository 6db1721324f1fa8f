import DnsFirewall.Foundations.Separated
import DnsFirewall.Processor.Base64

/-!
# The `dns` parameter of a DoH request

`extract_dns_query_from_uri` takes for the value of `dns` everything behind
its name: the text ends at a space or with the URI, and not at the `&` of the
next parameter, as it does in `extract_param`.  The parameters that follow are
decoded with the value, since `b64_decode` skips what it does not know.
-/

namespace DnsFirewall

open CString BigEndian FixedArrays BitStrings

/-- A parameter `dns` whose value is the unpadded encoding of a query. -/
def dnsParameter (query : Bytes) : Bytes :=
  paramDns ++ 61 :: Base64.encode Base64.urlSafe query

/-- A path and query parameters. -/
def uriText (path : Bytes) (parameters : List Bytes) : Bytes :=
  path ++ 63 :: [38].intercalate parameters

/-- A request URI with a query in one of its parameters, and the parameters in
front of it and behind it. -/
structure DnsUri where
  path : Bytes
  front : List Bytes
  query : Bytes
  back : List Bytes
  noMark : 63 ∉ path
  plain : ∀ parameter, parameter ∈ front ++ back → 38 ∉ parameter
  noBreak :
    ∀ character, character ∈ uriText path (front ++ dnsParameter query :: back) →
      character ≠ 0 ∧ character ≠ 32
  size : 1 ≤ query.length ∧ query.length ≤ dnsQueryMax

def DnsUri.text (uri : DnsUri) : Bytes :=
  uriText uri.path (uri.front ++ dnsParameter uri.query :: uri.back)

/-- `extract_dns_query_from_uri` returns zero with exactly this query. -/
def Extracts (uri query : Bytes) : Prop :=
  ∃ out, extractDnsQueryFromUri uri = .ok (some out) ∧ out.elements = query

/-- What is found behind the first `?dns=`, else behind the first `&dns=`, is
short enough, and the alphabet characters in front of its first `=` spell the
query. -/
def DecodedAlone (uri query : Bytes) : Prop :=
  ∃ text,
    afterParam uri paramDns = some text ∧ text.length < DohArray.b64.size ∧
      Base64.Spelled query (b64Digits (text.map plainB64))

theorem plainB64_ne_zero {character : UInt8} (notNul : character ≠ 0) :
    plainB64 character ≠ 0 := by
  rw [plainB64]
  split
  · decide
  · split
    · decide
    · exact notNul

/-- With a URI of no NUL and no space, the text behind `dns=` is decoded to
the end of the URI. -/
theorem extractDnsQueryFromUri_of_found
    {uri text : Bytes} (noSpace : 32 ∉ uri)
    (found : afterParam uri paramDns = some text) :
    extractDnsQueryFromUri uri =
      if DohArray.b64.size ≤ text.length then .ok none
      else
        (b64Decode (text.map plainB64)).map some := by
  have whole : text.takeWhile (· ≠ 32) = text := by
    rw [List.takeWhile_eq_self_iff]
    intro character member
    have notSpace : character ≠ 32 := by
      intro same
      exact noSpace (same ▸ (afterParam_suffix found).mem member)
    simpa using notSpace
  rw [extractDnsQueryFromUri, found]
  simp only
  rw [whole]
  by_cases long : DohArray.b64.size ≤ text.length
  · rw [if_pos long, if_pos long]
  · have short : text.length < DohArray.b64.size := by omega
    have copied :
        (Filled.ended text (0 : UInt8) short).elements.take text.length =
          text :=
      List.take_left
    rw [if_neg long, if_neg long, Filled.write_ended_bind 0 short, copied]
    cases b64Decode (text.map plainB64) with
    | error stop => rfl
    | ok out => rfl

/-- A text that is decoded into the array is the query, or none is
returned. -/
theorem b64Decode_elements_iff
    {text query : Bytes} (fits : query.length ≤ dnsQueryMax) :
    (∃ out, b64Decode text = .ok out ∧ out.elements = query) ↔
      b64Output 0 0 text = query := by
  rw [b64Decode_eq_write]
  constructor
  · intro decoded
    obtain ⟨out, written, same⟩ := decoded
    rw [Filled.write] at written
    split at written
    · cases written
      rw [← same, Filled.elements_extend, Filled.elements_empty,
        List.nil_append]
    · cases written
  · intro same
    have room :
        (Filled.empty : DohFilled .dnsQuery).elements.length +
            (b64Output 0 0 text).length ≤ DohArray.dnsQuery.size := by
      rw [same, Filled.elements_empty, List.length_nil, Nat.zero_add]
      exact fits
    refine ⟨_, Filled.write_eq_ok room, ?_⟩
    rw [Filled.elements_extend, Filled.elements_empty, List.nil_append, same]

/-- The text behind the name is decoded to the query exactly when it fits and
spells the query. -/
theorem extracts_iff_of_found
    {uri text query : Bytes}
    (noBreak : ∀ character, character ∈ uri → character ≠ 0 ∧ character ≠ 32)
    (found : afterParam uri paramDns = some text)
    (notEmpty : query ≠ []) (fits : query.length ≤ dnsQueryMax) :
    Extracts uri query ↔
      text.length < DohArray.b64.size ∧
        Base64.Spelled query (b64Digits (text.map plainB64)) := by
  have noSpace : 32 ∉ uri := fun member => (noBreak 32 member).2 rfl
  have noNul : 0 ∉ text.map plainB64 := by
    intro member
    obtain ⟨character, inside, same⟩ := List.mem_map.mp member
    have inUri := (afterParam_suffix found).mem inside
    exact plainB64_ne_zero (noBreak character inUri).1 same
  have spells :
      b64Output 0 0 (text.map plainB64) = query ↔
        Base64.Spelled query (b64Digits (text.map plainB64)) :=
    (b64Output_eq_iff noNul).trans
      (Base64.spelled_iff notEmpty fun digit member =>
        lt_of_mem_b64Digits noNul member).symm
  have decodes := @b64Decode_elements_iff (text.map plainB64) query fits
  rw [Extracts, extractDnsQueryFromUri_of_found noSpace found, ← spells,
    ← decodes]
  constructor
  · intro extracted
    obtain ⟨out, returned, same⟩ := extracted
    split at returned
    case isTrue => cases returned
    case isFalse short =>
      refine ⟨Nat.lt_of_not_le short, ?_⟩
      cases decoded : b64Decode (text.map plainB64) with
      | error stop =>
          rw [decoded] at returned
          cases returned
      | ok written =>
          rw [decoded] at returned
          cases returned
          exact ⟨_, rfl, same⟩
  · intro given
    obtain ⟨short, out, decoded, same⟩ := given
    refine ⟨out, ?_, same⟩
    rw [if_neg (by omega), decoded]
    exact rfl

namespace DnsUri

variable (uri : DnsUri)

/-- The name of the parameter stands behind a `?` or behind a `&`. -/
theorem exists_afterParam : ∃ text, afterParam uri.text paramDns = some text := by
  have begins :
      paramDns ++ [61] <+:
        [38].intercalate (dnsParameter uri.query :: uri.back) := by
    rw [Separated.intercalate_cons, dnsParameter, List.append_cons,
      List.append_assoc]
    exact List.prefix_append _ _
  have marked :
      63 :: paramDns ++ [61] <:+: uri.text ∨
        38 :: paramDns ++ [61] <:+: uri.text := by
    obtain ⟨rest, joined⟩ := begins
    by_cases first : uri.front = []
    · left
      rw [text, uriText, first, List.nil_append, ← joined]
      exact ⟨uri.path, rest, by simp⟩
    · right
      rw [text, uriText,
        Separated.intercalate_append 38 first (List.cons_ne_nil _ _),
        ← joined]
      exact ⟨uri.path ++ 63 :: [38].intercalate uri.front, rest, by simp⟩
  rw [afterParam]
  cases found : strstr uri.text (63 :: paramDns ++ [61]) with
  | some place => exact ⟨_, rfl⟩
  | none =>
      cases later : strstr uri.text (38 :: paramDns ++ [61]) with
      | some place => exact ⟨_, rfl⟩
      | none =>
          rcases marked with atStart | behind
          · exact absurd atStart (strstr_eq_none_iff.mp found)
          · exact absurd behind (strstr_eq_none_iff.mp later)

end DnsUri

/-- The query is returned exactly when what is found behind the name of the
parameter spells it, with all that follows. -/
theorem extracts_iff_decodedAlone (uri : DnsUri) :
    Extracts uri.text uri.query ↔ DecodedAlone uri.text uri.query := by
  obtain ⟨text, found⟩ := uri.exists_afterParam
  have notEmpty : uri.query ≠ [] :=
    List.ne_nil_of_length_pos uri.size.1
  have noBreak :
      ∀ character, character ∈ uri.text → character ≠ 0 ∧ character ≠ 32 :=
    uri.noBreak
  rw [extracts_iff_of_found noBreak found notEmpty uri.size.2]
  constructor
  · intro alone
    exact ⟨text, found, alone⟩
  · intro alone
    obtain ⟨other, otherFound, alone⟩ := alone
    rw [found] at otherFound
    cases otherFound
    exact alone

/-! ## The parameter is the first one -/

theorem plainB64_urlSafe :
    ∀ digit, digit < 64 →
      plainB64 (Base64.urlSafe digit) = Base64.standard digit := by
  decide

theorem map_plainB64_encode (query : Bytes) :
    (Base64.encode Base64.urlSafe query).map plainB64 =
      Base64.encode Base64.standard query := by
  rw [Base64.encode, Base64.encode, List.map_map]
  apply List.map_congr_left
  intro digit member
  exact plainB64_urlSafe digit (Base64.lt_of_mem_sextets query member)

/-- The digits of the value stand in front of those of what follows. -/
theorem b64Digits_value_append (query behind : Bytes) :
    b64Digits
        ((Base64.encode Base64.urlSafe query ++ behind).map plainB64) =
      Base64.sextets query ++ b64Digits (behind.map plainB64) := by
  have noEnd :
      ∀ character, character ∈ Base64.encode Base64.standard query →
        decide (character ≠ 61) = true := by
    intro character member
    have inside := Base64.mem_alphabet_of_mem_encode member
    have outside : (61 : UInt8) ∉ Base64.alphabet Base64.standard := by
      decide
    apply decide_eq_true
    intro same
    exact outside (same ▸ inside)
  rw [List.map_append, map_plainB64_encode, b64Digits,
    List.takeWhile_append_of_pos noEnd, List.filterMap_append,
    filterMap_b64Index_encode, b64Digits]

/-- The parameters behind the one with the query. -/
def DnsUri.behind (uri : DnsUri) : Bytes :=
  uri.back.flatMap (38 :: ·)

theorem DnsUri.text_of_first {uri : DnsUri} (first : uri.front = []) :
    uri.text =
      uri.path ++ (63 :: paramDns ++ [61]) ++
        (Base64.encode Base64.urlSafe uri.query ++ uri.behind) := by
  rw [text, uriText, first, List.nil_append, Separated.intercalate_cons,
    dnsParameter, behind]
  simp only [List.append_assoc, List.cons_append, List.nil_append]

/-- With no `?` in the path, the first one is found. -/
theorem afterParam_of_first {uri : DnsUri} (first : uri.front = []) :
    afterParam uri.text paramDns =
      some (Base64.encode Base64.urlSafe uri.query ++ uri.behind) := by
  have whole := DnsUri.text_of_first first
  have found :
      strstr uri.text (63 :: paramDns ++ [61]) = some uri.path.length := by
    apply strstr_eq_some_iff.mpr
    refine ⟨?_, ?_, ?_⟩
    · rw [whole, List.append_assoc, List.length_append]
      omega
    · rw [whole, List.append_assoc, List.drop_left]
      exact List.prefix_append _ _
    · intro earlier before begins
      rw [whole, List.append_assoc,
        List.drop_append_of_le_length (Nat.le_of_lt before),
        List.drop_eq_getElem_cons before] at begins
      obtain ⟨mark, _⟩ := List.cons_prefix_cons.mp begins
      exact uri.noMark (mark ▸ List.getElem_mem before)
  rw [afterParam, found]
  have behindName :
      uri.path.length + (paramDns.length + 2) =
        (uri.path ++ (63 :: paramDns ++ [61])).length := by
    simp
  simp only
  rw [behindName, whole, List.drop_left]

/-- A query in the first parameter is returned exactly when the parameters
behind it have no alphabet character in front of their first `=`, or one and
the query is read in groups of three bytes. -/
theorem extracts_first_iff {uri : DnsUri} (first : uri.front = []) :
    Extracts uri.text uri.query ↔
      (Base64.encode Base64.urlSafe uri.query ++ uri.behind).length <
          DohArray.b64.size ∧
        (b64Digits (uri.behind.map plainB64) = [] ∨
          3 ∣ uri.query.length ∧
            (b64Digits (uri.behind.map plainB64)).length = 1) := by
  have notEmpty : uri.query ≠ [] :=
    List.ne_nil_of_length_pos uri.size.1
  have noBreak :
      ∀ character, character ∈ uri.text → character ≠ 0 ∧ character ≠ 32 :=
    uri.noBreak
  rw [extracts_iff_of_found noBreak (afterParam_of_first first) notEmpty
      uri.size.2,
    b64Digits_value_append, Base64.spelled_append_iff notEmpty]

/-! ## The parameters behind it -/

/-- The query of the root's address, with one more parameter behind it. -/
def followedUri : DnsUri where
  path := [47, 100, 110, 115, 45, 113, 117, 101, 114, 121]
  front := []
  query := [0, 1, 1, 0, 0, 1, 0, 0, 0, 0, 0, 0, 0, 0, 1, 0, 1]
  back := [[99, 116, 61, 120]]
  noMark := by decide
  plain := by decide
  noBreak := by decide +kernel
  size := by decide

/-- The name `ct` of the parameter behind it brings the query one more
byte. -/
theorem not_extracts_followedUri :
    ¬ Extracts followedUri.text followedUri.query := by
  intro extracted
  obtain ⟨out, returned, same⟩ := extracted
  have decoded :
      (extractDnsQueryFromUri followedUri.text).map
          (Option.map fun query => query.elements) =
        .ok (some (followedUri.query ++ [28])) := by
    rfl
  rw [returned] at decoded
  have longer : out.elements = followedUri.query ++ [28] := by
    simpa [Except.map] using decoded
  rw [same] at longer
  exact absurd longer (by decide)

end DnsFirewall
