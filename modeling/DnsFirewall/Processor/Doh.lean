import DnsFirewall.Foundations.FixedArrays
import DnsFirewall.Foundations.Lines
import DnsFirewall.Processor.Transports

/-!
# DoH requests

The HTTP parser of `doh.c` and the copies between its fixed arrays, up to the
query that `handle_connection` gives to `process_dns_query`.  A run stops at
the first byte that would be written behind the end of an array.  The copies
are checked before they are made, except for the two words of the request line
and for what the base64 text decodes to, so a request stays inside the arrays
exactly when these three are short enough.  `strdup` and the allocation of a
body that is there are taken to succeed.
-/

namespace DnsFirewall

open CString BigEndian FixedArrays

/-- The arrays of fixed size that a request is copied through. -/
inductive DohArray where
  | line
  | methodStr
  | path
  | b64
  | name
  | typeStr
  | tmp
  | dnsQuery
deriving DecidableEq, Repr

def DohArray.size : DohArray → Nat
  | .line => 2048
  | .methodStr => 16
  | .path => 1024
  | .b64 => 2048
  | .name => 256
  | .typeStr => 16
  | .tmp => 256
  | .dnsQuery => dnsQueryMax

/-- The written part of an array. -/
abbrev DohFilled (array : DohArray) :=
  Filled UInt8 DohArray.size array

abbrev DohRun (R : Type) :=
  Except (Stop DohArray) R

/-- `b64_table`. -/
def b64Table : Bytes :=
  (List.range 26).map (fun letter => (65 + letter).toUInt8) ++
    (List.range 26).map (fun letter => (97 + letter).toUInt8) ++
      (List.range 10).map (fun digit => (48 + digit).toUInt8) ++ [43, 47]

/-- Where `strchr` finds a character in `b64_table`, whose NUL it finds as
well. -/
def b64Index (character : UInt8) : Option Nat :=
  (b64Table ++ [0]).idxOf? character

/-- The loop of `b64_decode`, from its values of `buf` and `bits` and the
bytes that are written. -/
def b64Loop (buf : UInt32) (bits : Nat) (out : DohFilled .dnsQuery) :
    Bytes → DohRun (DohFilled .dnsQuery)
  | [] => .ok out
  | character :: rest =>
      if character = 61 then .ok out
      else
        match b64Index character with
        | none => b64Loop buf bits out rest
        | some index =>
            let buf := (buf <<< 6) ||| index.toUInt32
            let bits := bits + 6
            if 8 ≤ bits then do
              let bits := bits - 8
              let out ← out.write [(buf >>> bits.toUInt32).toUInt8]
              b64Loop buf bits out rest
            else
              b64Loop buf bits out rest

def b64Decode (text : Bytes) : DohRun (DohFilled .dnsQuery) :=
  b64Loop 0 0 .empty text

inductive HttpMethod where
  | get
  | post
deriving DecidableEq, Repr

/-- What `parse_http_request` returns for a request. -/
structure HttpRequest where
  method : HttpMethod
  uri : Bytes
  body : Bytes

/-- The word that `%s` reads, and what is behind it. -/
def scanWord (text : Bytes) : Bytes × Bytes :=
  let word := text.dropWhile isSpace
  (word.takeWhile (! isSpace ·), word.dropWhile (! isSpace ·))

/-- The word that the first `%s` reads from the request line. -/
def methodWord (line : Bytes) : Bytes :=
  (scanWord line).1

/-- The word that the second `%s` reads. -/
def uriWord (line : Bytes) : Bytes :=
  (scanWord (scanWord line).2).1

/-- `sscanf` with `%s %s` into `method_str` and `path`, if it reads both. -/
def scanRequestLine (line : Bytes) : DohRun (Option (Bytes × Bytes)) :=
  if methodWord line = [] then .ok none
  else do
    let methodStr ←
      (Filled.empty : DohFilled .methodStr).write (methodWord line ++ [0])
    if uriWord line = [] then .ok none
    else do
      let path ← (Filled.empty : DohFilled .path).write (uriWord line ++ [0])
      .ok (some (content methodStr.elements, content path.elements))

def crlf : Bytes := [13, 10]

def methodGet : Bytes := [71, 69, 84]

def methodPost : Bytes := [80, 79, 83, 84]

/-- The copy of the request line and its NUL. -/
def copyLine (text : Bytes) (lineLen : Nat) : DohRun (DohFilled .line) := do
  let line ← (Filled.empty : DohFilled .line).write (text.take lineLen)
  line.write [0]

/-- `parse_http_request` behind `sscanf`.  The length of the body is a
`size_t`: where the header ends behind what was received, it wraps, the body
cannot be allocated and is copied to nowhere. -/
def requestOf (data text methodStr path : Bytes) :
    DohRun (Option HttpRequest) :=
  if strcasecmpEq methodStr methodGet then
    .ok (some ⟨.get, path, []⟩)
  else if strcasecmpEq methodStr methodPost then
    match strstr text (crlf ++ crlf) with
    | none => .ok none
    | some headerLen =>
        if data.length < headerLen + 4 then .error .fault
        else .ok (some ⟨.post, path, data.drop (headerLen + 4)⟩)
  else .ok none

/-- `parse_http_request`, of the received bytes and the memory behind them. -/
def parseHttpRequest (data beyond : Bytes) : DohRun (Option HttpRequest) :=
  let text := content (data ++ beyond)
  match strstr text crlf with
  | none => .ok none
  | some lineLen =>
      if DohArray.line.size ≤ lineLen then .ok none
      else do
        let line ← copyLine text lineLen
        match ← scanRequestLine (content line.elements) with
        | none => .ok none
        | some (methodStr, path) => requestOf data text methodStr path

/-- The text behind `?name=`, else behind `&name=`, in the URI. -/
def afterParam (uri paramName : Bytes) : Option Bytes :=
  match strstr uri (63 :: paramName ++ [61]) with
  | some place => some (uri.drop (place + (paramName.length + 2)))
  | none =>
      (strstr uri (38 :: paramName ++ [61])).map fun place =>
        uri.drop (place + (paramName.length + 2))

def paramDns : Bytes := [100, 110, 115]

def paramName : Bytes := [110, 97, 109, 101]

def paramType : Bytes := [116, 121, 112, 101]

/-- `extract_param`, over what the caller has set `out` to. -/
def extractParam (uri param : Bytes) (array : DohArray) :
    DohRun (Option (DohFilled array)) :=
  match afterParam uri param with
  | none => .ok none
  | some text =>
      let value := text.takeWhile fun c => c ≠ 38 && c ≠ 32
      if array.size ≤ value.length then .ok none
      else do
        let out ← (Filled.empty : DohFilled array).write value
        let out ← out.write [0]
        .ok (some out)

/-- The type names of `build_dns_query` and their numbers. -/
def queryTypes : List (Bytes × UInt16) :=
  [([65, 65, 65, 65], 28), ([77, 88], 15), ([84, 88, 84], 16), ([78, 83], 2),
    ([67, 78, 65, 77, 69], 5)]

def queryType (typeStr : Bytes) : UInt16 :=
  match queryTypes.find? fun entry => strcasecmpEq typeStr entry.1 with
  | some (_, qtype) => qtype
  | none => 1

/-- The loop of `build_dns_query` over the labels, and its last label. -/
def dohLabels (out : DohFilled .dnsQuery) :
    List Bytes → DohRun (DohFilled .dnsQuery)
  | [] => .ok out
  | label :: labels =>
      if label = [] then dohLabels out labels
      else do
        let out ← out.write [label.length.toUInt8]
        let out ← out.write label
        dohLabels out labels

/-- The header that `build_dns_query` writes: identifier 1, recursion desired,
one question. -/
def builtHeader : Bytes := [0, 1, 1, 0, 0, 1, 0, 0, 0, 0, 0, 0]

/-- `strncpy` of the name to `tmp`, which fills what is left with NULs, and
the last NUL. -/
def copyName (name : Bytes) : DohRun (DohFilled .tmp) := do
  let copied := boundedCopy DohArray.tmp.size name
  let tmp ←
    (Filled.empty : DohFilled .tmp).write
      (copied ++ List.replicate (DohArray.tmp.size - 1 - copied.length) 0)
  tmp.write [0]

def buildDnsQuery (name typeStr : Bytes) : DohRun (DohFilled .dnsQuery) := do
  let out ← (Filled.empty : DohFilled .dnsQuery).write builtHeader
  let tmp ← copyName name
  let out ← dohLabels out ((content tmp.elements).splitOn 46)
  out.write (0 :: bytes16 (queryType typeStr) ++ [0, 1])

/-- A character of the URL alphabet of base64 in the plain one. -/
def plainB64 (character : UInt8) : UInt8 :=
  if character = 45 then 43 else if character = 95 then 47 else character

/-- `extract_dns_query_from_uri` without a `dns` parameter, from the initial
values of `name` and `type_str`. -/
def extractByName (uri : Bytes) : DohRun (Option (DohFilled .dnsQuery)) := do
  let _ ←
    (Filled.empty : DohFilled .name).write
      (List.replicate DohArray.name.size 0)
  let typeA ← (Filled.empty : DohFilled .typeStr).write [65, 0]
  match ← extractParam uri paramName .name with
  | none => .ok none
  | some name => do
      let typeStr ← extractParam uri paramType .typeStr
      let query ←
        buildDnsQuery (content name.elements)
          (content (typeStr.getD typeA).elements)
      .ok (some query)

def extractDnsQueryFromUri (uri : Bytes) :
    DohRun (Option (DohFilled .dnsQuery)) :=
  match afterParam uri paramDns with
  | some param =>
      let value := param.takeWhile (· ≠ 32)
      if DohArray.b64.size ≤ value.length then .ok none
      else do
        let b64 ← (Filled.empty : DohFilled .b64).write value
        let b64 ← b64.write [0]
        let query ← b64Decode ((b64.elements.take value.length).map plainB64)
        .ok (some query)
  | none => extractByName uri

/-- The query of a parsed request, in `handle_connection`. -/
def queryOf : Option HttpRequest → DohRun (Option (DohFilled .dnsQuery))
  | none => .ok none
  | some ⟨.get, uri, _⟩ => extractDnsQueryFromUri uri
  | some ⟨.post, _, body⟩ =>
      if 0 < body.length ∧ body.length ≤ dnsQueryMax then do
        let query ← (Filled.empty : DohFilled .dnsQuery).write body
        .ok (some query)
      else .ok none

/-- `handle_connection` up to the query it gives to `process_dns_query`, for
the bytes it receives and what the stack holds behind them. -/
def receiveRequest (data beyond : Bytes) :
    DohRun (Option (DohFilled .dnsQuery)) :=
  if data.length < 12 then .ok none
  else do
    let request ← parseHttpRequest data beyond
    queryOf request

/-- `handle_connection`, with the result of `getpeername`. -/
def serveRequest {F : Type} (env : Env) (cfg : Config F) (fw : Firewall)
    (data beyond : Bytes) (peer : Option SockAddrIn) :
    DohRun (Option CallResult) := do
  let query ← receiveRequest data beyond
  .ok
    (query.map fun dnsQuery =>
      processDnsQuery env cfg fw dnsQuery.elements
        (some (peer.getD fallbackClient)))

/-! ## The condition -/

/-- The size of `recv_buf`. -/
def recvBuf : Nat := 65536

/-- Whatever is received, and whatever the stack holds behind it, nothing is
written behind the end of an array. -/
def StaysInside : Prop :=
  ∀ data beyond : Bytes, data.length ≤ recvBuf →
    Inside (receiveRequest data beyond)

/-- The characters that `b64_decode` decodes. -/
def decodable (text : Bytes) : Bytes :=
  (text.takeWhile (· ≠ 61)).filter fun c => (b64Index c).isSome

/-- The two words of a request line fit their arrays, and what the `dns`
parameter of a GET request decodes to fits the query. -/
structure ShortWords (line : Bytes) : Prop where
  method : (methodWord line).length < DohArray.methodStr.size
  uri : (uriWord line).length < DohArray.path.size
  dns :
    strcasecmpEq (methodWord line) methodGet = true →
      ∀ param, afterParam (uriWord line) paramDns = some param →
        (decodable (param.map plainB64)).length ≤ 683

/-- The request is too short to be read, or the words of each request line
that fits `line` are short. -/
def ShortRequest (data beyond : Bytes) : Prop :=
  data.length < 12 ∨
    ∀ lineLen, strstr (content (data ++ beyond)) crlf = some lineLen →
      lineLen < DohArray.line.size →
        ShortWords ((content (data ++ beyond)).take lineLen)

/-! ## The base64 text -/

theorem decodable_end (rest : Bytes) : decodable (61 :: rest) = [] :=
  rfl

theorem decodable_cons
    {character : UInt8} (notEnd : character ≠ 61) (rest : Bytes) :
    decodable (character :: rest) =
      if (b64Index character).isSome then character :: decodable rest
      else decodable rest := by
  unfold decodable
  rw [List.takeWhile_cons_of_pos (by simpa using notEnd), List.filter_cons]

/-- Every character that is decoded brings six bits, and eight of them are
written as a byte. -/
theorem inside_b64Loop_iff
    (text : Bytes) (buf : UInt32) {bits : Nat} (few : bits < 8)
    (out : DohFilled .dnsQuery) :
    Inside (b64Loop buf bits out text) ↔
      8 * out.elements.length + bits + 6 * (decodable text).length <
        8 * (dnsQueryMax + 1) := by
  induction text generalizing buf bits out with
  | nil =>
      have inside : out.elements.length ≤ dnsQueryMax := out.inside
      refine iff_of_true (inside_ok out) ?_
      change _ + 6 * 0 < _
      omega
  | cons character rest inductionHypothesis =>
      have inside : out.elements.length ≤ dnsQueryMax := out.inside
      rw [b64Loop]
      by_cases atEnd : character = 61
      · rw [if_pos atEnd, atEnd, decodable_end]
        refine iff_of_true (inside_ok out) ?_
        change _ + 6 * 0 < _
        omega
      · rw [if_neg atEnd, decodable_cons atEnd]
        cases found : b64Index character with
        | none => exact inductionHypothesis buf few out
        | some index =>
            simp only [Option.isSome_some, if_true, List.length_cons]
            by_cases full : 8 ≤ bits + 6
            -- a byte is written, and two bits fewer are left over
            · rw [if_pos full, Filled.inside_write_bind_iff]
              constructor
              · intro given
                obtain ⟨room, later⟩ := given
                have short := (inductionHypothesis _ (by omega) _).mp later
                rw [Filled.length_extend, List.length_singleton] at short
                omega
              · intro short
                refine ⟨?_, ?_⟩
                · change out.elements.length + 1 ≤ dnsQueryMax
                  omega
                · apply (inductionHypothesis _ (by omega) _).mpr
                  rw [Filled.length_extend, List.length_singleton]
                  omega
            · rw [if_neg full, inductionHypothesis _ (by omega) out]
              constructor
              · intro short
                omega
              · intro short
                omega

theorem inside_b64Decode_iff (text : Bytes) :
    Inside (b64Decode text) ↔ (decodable text).length ≤ 683 := by
  rw [b64Decode]
  rw [inside_b64Loop_iff text 0 (by decide) .empty, Filled.elements_empty,
    List.length_nil]
  rw [dnsQueryMax]
  omega

/-! ## The words of the request line -/

theorem mem_of_mem_scanWord
    {text : Bytes} {character : UInt8}
    (member : character ∈ (scanWord text).1) :
    character ∈ text :=
  (List.dropWhile_suffix _).mem ((List.takeWhile_prefix _).mem member)

theorem not_isSpace_of_mem_scanWord
    {text : Bytes} {character : UInt8}
    (member : character ∈ (scanWord text).1) :
    isSpace character = false := by
  have plain := List.mem_takeWhile_imp member
  simpa using plain

theorem mem_of_mem_scanWord_rest
    {text : Bytes} {character : UInt8}
    (member : character ∈ (scanWord text).2) :
    character ∈ text :=
  (List.dropWhile_suffix _).mem ((List.dropWhile_suffix _).mem member)

/-- Behind an empty word there is nothing. -/
theorem uriWord_of_methodWord_nil
    {line : Bytes} (empty : methodWord line = []) :
    uriWord line = [] := by
  have nothing : line.dropWhile isSpace = [] := by
    cases word : line.dropWhile isSpace with
    | nil => rfl
    | cons character rest =>
        have taken :
            (line.dropWhile isSpace).takeWhile (! isSpace ·) = [] := empty
        have head := List.head?_dropWhile_not isSpace line
        rw [word] at head taken
        have plain : (! isSpace character) = true := by simpa using head
        rw [@List.takeWhile_cons_of_pos _ (! isSpace ·) _ rest plain] at taken
        cases taken
  have rest : (scanWord line).2 = [] := by
    rw [scanWord]
    rw [nothing]
    exact rfl
  rw [uriWord]
  rw [rest]
  exact rfl

theorem noNul_methodWord
    {line : Bytes}
    (noNul : ∀ character, character ∈ line → character ≠ 0) :
    ∀ character, character ∈ methodWord line → character ≠ 0 :=
  fun character member => noNul character (mem_of_mem_scanWord member)

theorem noNul_uriWord
    {line : Bytes}
    (noNul : ∀ character, character ∈ line → character ≠ 0) :
    ∀ character, character ∈ uriWord line → character ≠ 0 :=
  fun character member =>
    noNul character (mem_of_mem_scanWord_rest (mem_of_mem_scanWord member))

/-- The two words are read inside their arrays, and what follows is done with
them. -/
theorem inside_scanRequestLine_bind_iff
    {R : Type} {line : Bytes}
    (noNul : ∀ character, character ∈ line → character ≠ 0)
    (next : Option (Bytes × Bytes) → DohRun R)
    (rejected : Inside (next none)) :
    Inside (scanRequestLine line >>= next) ↔
      (methodWord line).length < 16 ∧ (uriWord line).length < 1024 ∧
        (uriWord line ≠ [] →
          Inside (next (some (methodWord line, uriWord line)))) := by
  rw [scanRequestLine]
  by_cases first : methodWord line = []
  · rw [if_pos first, first, uriWord_of_methodWord_nil first]
    refine iff_of_true rejected ⟨by decide, by decide, ?_⟩
    intro notNil
    exact absurd rfl notNil
  · rw [if_neg first, bind_assoc, Filled.inside_write_ended_bind_iff]
    rw [← exists_prop]
    refine exists_congr fun _ => ?_
    by_cases second : uriWord line = []
    · rw [if_pos second, second]
      exact
        iff_of_true rejected ⟨by decide, fun notNil => absurd rfl notNil⟩
    · rw [if_neg second, bind_assoc, Filled.inside_write_ended_bind_iff,
        ← exists_prop]
      refine exists_congr fun _ => ?_
      rw [Filled.elements_ended, Filled.elements_ended,
        content_append_nul (noNul_methodWord noNul),
        content_append_nul (noNul_uriWord noNul)]
      exact ⟨fun inside _ => inside, fun inside => inside second⟩

/-! ## The guarded copies -/

theorem extractParam_total (uri param : Bytes) (array : DohArray) :
    ∃ out, extractParam uri param array = .ok out := by
  rw [extractParam]
  cases afterParam uri param with
  | none => exact ⟨none, rfl⟩
  | some text =>
      simp only
      generalize (text.takeWhile fun c => c ≠ 38 && c ≠ 32) = value
      by_cases long : array.size ≤ value.length
      · rw [if_pos long]
        exact ⟨none, rfl⟩
      · have short : value.length < array.size := by
          omega
        rw [if_neg long, Filled.write_ended_bind 0 short]
        exact ⟨_, rfl⟩

/-- The labels are written when they and their lengths have room. -/
theorem dohLabels_total
    (labels : List Bytes) (out : DohFilled .dnsQuery)
    (room :
      out.elements.length + (labels.map (·.length + 1)).sum ≤
        DohArray.dnsQuery.size) :
    ∃ after,
      dohLabels out labels = .ok after ∧
        after.elements.length ≤
          out.elements.length + (labels.map (·.length + 1)).sum := by
  induction labels generalizing out with
  | nil => exact ⟨out, rfl, Nat.le_refl _⟩
  | cons label labels inductionHypothesis =>
      rw [List.map_cons, List.sum_cons] at room ⊢
      rw [dohLabels]
      by_cases empty : label = []
      · rw [if_pos empty]
        obtain ⟨after, written, short⟩ :=
          inductionHypothesis out (by omega)
        exact ⟨after, written, by omega⟩
      · have forLength :
            out.elements.length + [label.length.toUInt8].length ≤
              DohArray.dnsQuery.size := by
          rw [List.length_singleton]
          omega
        have forLabel :
            (out.extend [label.length.toUInt8] forLength).elements.length +
                label.length ≤ DohArray.dnsQuery.size := by
          rw [Filled.length_extend, List.length_singleton]
          omega
        have labelled :
            ((out.extend [label.length.toUInt8] forLength).extend label
                forLabel).elements.length =
              out.elements.length + (label.length + 1) := by
          rw [Filled.length_extend, Filled.length_extend,
            List.length_singleton]
          omega
        rw [if_neg empty, Filled.write_bind forLength,
          Filled.write_bind forLabel]
        obtain ⟨after, written, short⟩ :=
          inductionHypothesis
            ((out.extend [label.length.toUInt8] forLength).extend label
              forLabel)
            (by rw [labelled]; omega)
        exact ⟨after, written, by omega⟩

/-- The name is copied into 255 bytes and a NUL. -/
theorem copyName_total (name : Bytes) :
    ∃ tmp, copyName name = .ok tmp ∧ (content tmp.elements).length ≤ 255 := by
  have copied : (boundedCopy DohArray.tmp.size name).length ≤ 255 :=
    List.length_take_le _ _
  have padded :
      (boundedCopy DohArray.tmp.size name ++
          List.replicate
            (DohArray.tmp.size - 1 -
              (boundedCopy DohArray.tmp.size name).length) 0).length =
        255 := by
    rw [List.length_append, List.length_replicate]
    change _ + (256 - 1 - _) = 255
    omega
  unfold copyName
  simp only
  generalize boundedCopy DohArray.tmp.size name ++ _ = filling at padded
  have short : filling.length < DohArray.tmp.size := by
    rw [padded]
    decide
  refine ⟨Filled.ended filling 0 short, ?_, ?_⟩
  · exact Filled.write_ended 0 short
  · rw [← padded]
    exact length_content_append_nul_le filling

/-- The labels of the copied name with their lengths have at most 256 bytes,
and these fit the query with the header and the end of the question. -/
theorem buildDnsQuery_total (name typeStr : Bytes) :
    ∃ query, buildDnsQuery name typeStr = .ok query := by
  have forHeader :
      (Filled.empty : DohFilled .dnsQuery).elements.length +
          builtHeader.length ≤
        DohArray.dnsQuery.size := by
    decide
  obtain ⟨tmp, copied, short⟩ := copyName_total name
  have sum := Lines.sum_length_splitOn 46 (content tmp.elements)
  obtain ⟨out, labelled, length⟩ :=
    dohLabels_total ((content tmp.elements).splitOn 46)
      ((Filled.empty : DohFilled .dnsQuery).extend builtHeader forHeader)
      (by
        rw [sum]
        change 12 + ((content tmp.elements).length + 1) ≤ 512
        omega)
  have forEnd :
      out.elements.length +
          (0 :: bytes16 (queryType typeStr) ++ [0, 1]).length ≤
        DohArray.dnsQuery.size := by
    rw [sum] at length
    change out.elements.length ≤
      12 + ((content tmp.elements).length + 1) at length
    change out.elements.length + 5 ≤ 512
    omega
  rw [buildDnsQuery]
  rw [Filled.write_bind forHeader, copied]
  refine ⟨out.extend _ forEnd, ?_⟩
  rw [← Filled.write_eq_ok forEnd]
  change (dohLabels _ _ >>= _) = _
  rw [labelled]
  exact rfl

theorem extractByName_total (uri : Bytes) :
    ∃ query, extractByName uri = .ok query := by
  have forName :
      (Filled.empty : DohFilled .name).elements.length +
          (List.replicate DohArray.name.size (0 : UInt8)).length ≤
        DohArray.name.size := by
    rw [List.length_replicate]
    decide
  obtain ⟨name, named⟩ := extractParam_total uri paramName .name
  obtain ⟨typeStr, typed⟩ := extractParam_total uri paramType .typeStr
  have forType :
      (Filled.empty : DohFilled .typeStr).elements.length +
          ([65, 0] : Bytes).length ≤
        DohArray.typeStr.size := by
    decide
  rw [extractByName]
  rw [Filled.write_bind forName, Filled.write_bind forType, named]
  cases name with
  | none => exact ⟨none, rfl⟩
  | some name =>
      obtain ⟨query, built⟩ :=
        buildDnsQuery_total (content name.elements)
          (content
            (typeStr.getD
              ((Filled.empty : DohFilled .typeStr).extend [65, 0]
                forType)).elements)
      refine ⟨some query, ?_⟩
      change (extractParam uri paramType .typeStr >>= _) = _
      rw [typed]
      change (buildDnsQuery _ _ >>= _) = _
      rw [built]
      exact rfl

/-! ## A whole request -/

theorem afterParam_suffix
    {uri param text : Bytes} (found : afterParam uri param = some text) :
    text <:+ uri := by
  unfold afterParam at found
  split at found
  · cases found
    exact List.drop_suffix _ _
  · obtain ⟨place, _, rfl⟩ := Option.map_eq_some_iff.mp found
    exact List.drop_suffix _ _

/-- With a word of the request line as URI, only what its `dns` parameter
decodes to can be too long. -/
theorem inside_extractDnsQueryFromUri_iff
    {uri : Bytes} (short : uri.length < 1024)
    (word : ∀ character, character ∈ uri → isSpace character = false) :
    Inside (extractDnsQueryFromUri uri) ↔
      ∀ param, afterParam uri paramDns = some param →
        (decodable (param.map plainB64)).length ≤ 683 := by
  unfold extractDnsQueryFromUri
  cases found : afterParam uri paramDns with
  | none =>
      obtain ⟨query, total⟩ := extractByName_total uri
      refine iff_of_true ?_ (by rintro _ ⟨⟩)
      simp only
      rw [total]
      exact inside_ok query
  | some param =>
      have suffix := afterParam_suffix found
      have whole : param.takeWhile (· ≠ 32) = param := by
        rw [List.takeWhile_eq_self_iff]
        intro character member
        have plain := word character (suffix.mem member)
        unfold isSpace at plain
        rw [Bool.or_eq_false_iff] at plain
        simpa using plain.1
      have fits := suffix.length_le
      have shortText : param.length < DohArray.b64.size := by
        change param.length < 2048
        omega
      have copied :
          (Filled.ended param (0 : UInt8) shortText).elements.take
              param.length =
            param :=
        List.take_left
      simp only
      rw [whole, if_neg (by omega), Filled.write_ended_bind 0 shortText,
        copied, inside_bind_iff, inside_b64Decode_iff]
      constructor
      · rintro ⟨fitting, _⟩ _ ⟨⟩
        exact fitting
      · intro fitting
        exact ⟨fitting param rfl, fun query _ => inside_ok (some query)⟩

/-- The body of a POST request is checked against the size of the query, and
is the query. -/
theorem queryOf_post (uri body : Bytes) :
    ∃ query,
      queryOf (some ⟨.post, uri, body⟩) = .ok query ∧
        query.map (·.elements) =
          if 0 < body.length ∧ body.length ≤ dnsQueryMax then some body
          else none := by
  unfold queryOf
  simp only
  by_cases accepted : 0 < body.length ∧ body.length ≤ dnsQueryMax
  · have room :
        (Filled.empty : DohFilled .dnsQuery).elements.length + body.length ≤
          DohArray.dnsQuery.size := by
      rw [Filled.elements_empty, List.length_nil, Nat.zero_add]
      exact accepted.2
    rw [if_pos accepted, if_pos accepted, Filled.write_bind room]
    exact ⟨_, rfl, rfl⟩
  · rw [if_neg accepted, if_neg accepted]
    exact ⟨none, rfl, rfl⟩

theorem inside_queryOf_post (uri body : Bytes) :
    Inside (queryOf (some ⟨.post, uri, body⟩)) := by
  obtain ⟨query, copied, _⟩ := queryOf_post uri body
  rw [copied]
  exact inside_ok query

theorem copyLine_total
    {text : Bytes} (noNul : ∀ character, character ∈ text → character ≠ 0)
    {lineLen : Nat} (short : lineLen < DohArray.line.size) :
    ∃ line,
      copyLine text lineLen = .ok line ∧
        content line.elements = text.take lineLen := by
  have atMost : (text.take lineLen).length ≤ lineLen :=
    List.length_take_le _ _
  have shortLine : (text.take lineLen).length < DohArray.line.size := by
    omega
  refine ⟨Filled.ended (text.take lineLen) 0 shortLine, ?_, ?_⟩
  · exact Filled.write_ended 0 shortLine
  · exact
      content_append_nul fun character member =>
        noNul character (List.mem_of_mem_take member)

theorem inside_requestOf_bind_iff
    {R : Type} (data text methodStr path : Bytes)
    (next : Option HttpRequest → DohRun R)
    (rejected : Inside (next none))
    (posted : ∀ body, Inside (next (some ⟨.post, path, body⟩))) :
    Inside (requestOf data text methodStr path >>= next) ↔
      (strcasecmpEq methodStr methodGet = true →
        Inside (next (some ⟨.get, path, []⟩))) := by
  rw [requestOf]
  by_cases isGet : strcasecmpEq methodStr methodGet = true
  · rw [if_pos isGet]
    exact ⟨fun inside _ => inside, fun inside => inside isGet⟩
  · rw [if_neg isGet]
    refine iff_of_true ?_ fun get => absurd get isGet
    by_cases isPost : strcasecmpEq methodStr methodPost = true
    · rw [if_pos isPost]
      cases strstr text (crlf ++ crlf) with
      | none => exact rejected
      | some headerLen =>
          simp only
          by_cases behind : data.length < headerLen + 4
          · rw [if_pos behind]
            exact inside_fault
          · rw [if_neg behind]
            exact posted _
    · rw [if_neg isPost]
      exact rejected

/-- A request stays inside the arrays exactly when the words of its request
line do. -/
theorem inside_parseHttpRequest_bind_iff
    {R : Type} (data beyond : Bytes) (next : Option HttpRequest → DohRun R)
    (rejected : Inside (next none))
    (posted : ∀ uri body, Inside (next (some ⟨.post, uri, body⟩))) :
    Inside (parseHttpRequest data beyond >>= next) ↔
      ∀ lineLen, strstr (content (data ++ beyond)) crlf = some lineLen →
        lineLen < DohArray.line.size →
          ∀ line, line = (content (data ++ beyond)).take lineLen →
            (methodWord line).length < DohArray.methodStr.size ∧
              (uriWord line).length < DohArray.path.size ∧
                (uriWord line ≠ [] →
                  strcasecmpEq (methodWord line) methodGet = true →
                    Inside (next (some ⟨.get, uriWord line, []⟩))) := by
  have noNul :
      ∀ character, character ∈ content (data ++ beyond) → character ≠ 0 :=
    fun _ member => ne_zero_of_mem_content member
  unfold parseHttpRequest
  generalize content (data ++ beyond) = text at noNul
  simp only
  cases strstr text crlf with
  | none => exact iff_of_true rejected (by rintro _ ⟨⟩)
  | some lineLen =>
      simp only
      by_cases long : DohArray.line.size ≤ lineLen
      · rw [if_pos long]
        refine iff_of_true rejected ?_
        rintro _ ⟨⟩ short
        omega
      · have short : lineLen < DohArray.line.size := by omega
        obtain ⟨line, copied, isLine⟩ := copyLine_total noNul short
        have noNulLine :
            ∀ character, character ∈ text.take lineLen → character ≠ 0 :=
          fun character member =>
            noNul character (List.mem_of_mem_take member)
        have words :=
          inside_scanRequestLine_bind_iff noNulLine
            (fun scanned =>
              (match scanned with
                | none => .ok none
                | some (methodStr, path) =>
                    requestOf data text methodStr path) >>= next)
            rejected
        rw [if_neg long, copied]
        change
          Inside ((scanRequestLine (content line.elements) >>= _) >>= next) ↔ _
        rw [bind_assoc, isLine, words]
        have method :=
          inside_requestOf_bind_iff data text
            (methodWord (text.take lineLen)) (uriWord (text.take lineLen))
            next rejected (posted _)
        constructor
        · rintro ⟨first, second, later⟩ _ ⟨⟩ _ _ rfl
          exact ⟨first, second, fun notNil => method.mp (later notNil)⟩
        · intro holds
          obtain ⟨first, second, later⟩ := holds lineLen rfl short _ rfl
          exact ⟨first, second, fun notNil => method.mpr (later notNil)⟩

theorem not_isSpace_of_mem_uriWord
    {line : Bytes} {character : UInt8} (member : character ∈ uriWord line) :
    isSpace character = false :=
  not_isSpace_of_mem_scanWord member

theorem afterParam_nil (param : Bytes) : afterParam [] param = none :=
  rfl

/-- No byte is written behind the end of an array exactly when the words of
the request line and the decoded `dns` parameter are short enough for the
arrays that they are written to unchecked. -/
theorem receiveRequest_inside_iff (data beyond : Bytes) :
    Inside (receiveRequest data beyond) ↔ ShortRequest data beyond := by
  rw [receiveRequest, ShortRequest]
  by_cases unread : data.length < 12
  · rw [if_pos unread]
    exact iff_of_true (inside_ok none) (Or.inl unread)
  · rw [if_neg unread,
      inside_parseHttpRequest_bind_iff data beyond queryOf (inside_ok none)
        inside_queryOf_post,
      or_iff_right unread]
    refine
      forall_congr' fun lineLen => forall_congr' fun _ =>
        forall_congr' fun _ => ?_
    constructor
    · intro holds
      obtain ⟨method, uri, later⟩ := holds _ rfl
      refine ⟨method, uri, ?_⟩
      intro isGet param found
      have notNil :
          uriWord ((content (data ++ beyond)).take lineLen) ≠ [] := by
        intro empty
        rw [empty, afterParam_nil] at found
        cases found
      exact
        (inside_extractDnsQueryFromUri_iff uri fun _ member =>
            not_isSpace_of_mem_uriWord member).mp
          (later notNil isGet) param found
    · intro short line same
      subst same
      refine ⟨short.method, short.uri, ?_⟩
      intro _ isGet
      exact
        (inside_extractDnsQueryFromUri_iff short.uri fun _ member =>
            not_isSpace_of_mem_uriWord member).mpr
          (short.dns isGet)

/-- A request whose method has sixteen letters: its NUL is written behind
`method_str`. -/
def longMethod : Bytes :=
  List.replicate 16 65 ++ [32, 47] ++ crlf

theorem not_staysInside : ¬ StaysInside := by
  intro inside
  have stopped :
      receiveRequest longMethod [] = .error (.past .methodStr) :=
    rfl
  exact inside longMethod [] (by decide) .methodStr stopped

example : ¬ Inside (b64Decode (List.replicate 684 65)) := by
  rw [inside_b64Decode_iff]
  decide +kernel

/-! ## What is handed over -/

/-- A POST request that is parsed is served as its body is. -/
theorem serveRequest_of_post
    {F : Type} (env : Env) (cfg : Config F) (fw : Firewall)
    {data beyond uri body : Bytes} (peer : Option SockAddrIn)
    (enough : 12 ≤ data.length)
    (parsed :
      parseHttpRequest data beyond = .ok (some ⟨.post, uri, body⟩)) :
    serveRequest env cfg fw data beyond peer =
      .ok (handleConnection env cfg fw body peer) := by
  obtain ⟨query, copied, isBody⟩ := queryOf_post uri body
  have handed :
      serveRequest env cfg fw data beyond peer =
        .ok
          (query.map fun dnsQuery =>
            processDnsQuery env cfg fw dnsQuery.elements
              (some (peer.getD fallbackClient))) := by
    rw [serveRequest, receiveRequest]
    rw [if_neg (by omega), parsed]
    change (queryOf (some ⟨.post, uri, body⟩) >>= _) = _
    rw [copied]
    exact rfl
  have ofElements :
      (query.map fun dnsQuery =>
          processDnsQuery env cfg fw dnsQuery.elements
            (some (peer.getD fallbackClient))) =
        (query.map (·.elements)).map fun inbuf =>
          processDnsQuery env cfg fw inbuf
            (some (peer.getD fallbackClient)) := by
    cases query with
    | none => exact rfl
    | some dnsQuery => exact rfl
  rw [handed, ofElements, isBody]
  rw [handleConnection]
  by_cases accepted : 0 < body.length ∧ body.length ≤ dnsQueryMax
  · rw [if_pos accepted, if_pos accepted]
    exact rfl
  · rw [if_neg accepted, if_neg accepted]
    exact rfl

end DnsFirewall
