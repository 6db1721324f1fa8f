import DnsFirewall.Foundations.Decimal
import DnsFirewall.Foundations.HeaderLines
import DnsFirewall.Processor.DnsParameter
import DnsFirewall.Processor.Provenance
import DnsFirewall.Processor.Received
import DnsFirewall.Processor.Sinkhole

/-!
# The DoH client

`test_doh.py` sends a query as the padded base64 text in the URI of a GET
request, and takes for the answer what it receives behind the first empty line.
Both ends agree: `handle_connection` hands over the query that the client has
encoded, whatever the stack holds behind the request, and the client reads the
packet that the callback is given.
-/

namespace DnsFirewall

open CString BigEndian FixedArrays Runs

variable {F : Type}

/-! ## The two ends -/

/-- `base64.urlsafe_b64encode`, which pads the encoding. -/
def urlsafeB64encode (query : Bytes) : Bytes :=
  Base64.encode Base64.urlSafe query ++ Base64.padding query

/-- The path `/dns-query`. -/
def dnsQueryPath : Bytes :=
  [47, 100, 110, 115, 45, 113, 117, 101, 114, 121]

/-- The `url` of the client. -/
def clientUrl (query : Bytes) : Bytes :=
  dnsQueryPath ++ (63 :: paramDns ++ [61]) ++ urlsafeB64encode query

/-- `HTTP/1.1`. -/
def httpVersion : Bytes := [72, 84, 84, 80, 47, 49, 46, 49]

def clientLine (query : Bytes) : Bytes :=
  methodGet ++ 32 :: (clientUrl query ++ 32 :: httpVersion)

/-- `Host: 127.0.0.1:8053`. -/
def hostField : Bytes :=
  [72, 111, 115, 116, 58, 32, 49, 50, 55, 46, 48, 46, 48, 46, 49, 58, 56, 48,
    53, 51]

/-- `Connection: close`. -/
def connectionField : Bytes :=
  [67, 111, 110, 110, 101, 99, 116, 105, 111, 110, 58, 32, 99, 108, 111, 115,
    101]

/-- The `request` of the client. -/
def clientRequest (query : Bytes) : Bytes :=
  headerText [clientLine query, hostField, connectionField]

/-- The `dns_resp` of the client.  The `find` of Python gives -1 where there is
no empty line. -/
def clientBody (response : Bytes) : Bytes :=
  match strstr response (crlf ++ crlf) with
  | some place => response.drop (place + 4)
  | none => response.drop 3

/-- `HTTP/1.1 200 OK`. -/
def statusLine : Bytes := httpVersion ++ [32, 50, 48, 48, 32, 79, 75]

/-- `Content-Type: application/dns-message`. -/
def typeField : Bytes :=
  [67, 111, 110, 116, 101, 110, 116, 45, 84, 121, 112, 101, 58, 32, 97, 112,
    112, 108, 105, 99, 97, 116, 105, 111, 110, 47, 100, 110, 115, 45, 109, 101,
    115, 115, 97, 103, 101]

/-- `Content-Length: `. -/
def lengthName : Bytes :=
  [67, 111, 110, 116, 101, 110, 116, 45, 76, 101, 110, 103, 116, 104, 58, 32]

/-- The lines of the header that `doh_response_cb` formats. -/
def responseLines (len : Nat) : List Bytes :=
  [statusLine, typeField, lengthName ++ decimal len]

/-- `hdr`, an array of 256 bytes that `snprintf` fills. -/
def responseHeader (len : Nat) : Bytes :=
  boundedCopy 256 (headerText (responseLines len))

/-- What `doh_response_cb` sends before it closes the connection. -/
def dohResponseCb (data : Bytes) : Bytes :=
  responseHeader data.length ++ data

/-- The length that a header announces: the number behind the first
`Content-Length: `. -/
def announcedLength (response : Bytes) : Option Nat :=
  (strstr response lengthName).map fun place =>
    decimalValue
      ((response.drop (place + lengthName.length)).takeWhile (· ≠ 13))

/-! ## The request -/

theorem mem_encode_urlSafe
    {query : Bytes} {character : UInt8}
    (member : character ∈ urlsafeB64encode query) :
    character ∈ 61 :: Base64.alphabet Base64.urlSafe := by
  rcases List.mem_append.mp member with inEncoding | inPadding
  · exact
      List.mem_cons_of_mem 61 (Base64.mem_alphabet_of_mem_encode inEncoding)
  · rw [List.eq_of_mem_replicate inPadding]
    exact List.mem_cons_self

/-- The character neither ends a word of the request line nor the string. -/
def isUrlCharacter (character : UInt8) : Bool :=
  ! isSpace character && character != 0

/-- No character of the URL is a NUL, a blank or a line end. -/
theorem plain_of_mem_clientUrl
    {query : Bytes} {character : UInt8} (member : character ∈ clientUrl query) :
    isSpace character = false ∧ character ≠ 0 := by
  have ofPath :
      (dnsQueryPath ++ (63 :: paramDns ++ [61])).all isUrlCharacter = true := by
    decide
  have ofText :
      (61 :: Base64.alphabet Base64.urlSafe).all isUrlCharacter = true := by
    decide
  have holds : isUrlCharacter character = true := by
    rcases List.mem_append.mp member with inPath | inText
    · exact List.all_eq_true.mp ofPath character inPath
    · exact List.all_eq_true.mp ofText character (mem_encode_urlSafe inText)
  simpa [isUrlCharacter] using holds

/-- Six bits of the query make a character, and at most two are padding. -/
theorem length_urlsafeB64encode_le
    {query : Bytes} (short : query.length ≤ dnsQueryMax) :
    (urlsafeB64encode query).length ≤ 685 := by
  have bits := congrArg List.length (Base64.spread_sextets query)
  rw [BitStrings.spread_length, List.length_append, BitStrings.spread_length,
    List.length_map, List.length_replicate] at bits
  have few := Base64.unusedBits_lt query
  rw [dnsQueryMax] at short
  rw [urlsafeB64encode, Base64.encode, Base64.padding, List.length_append,
    List.length_map, List.length_replicate]
  omega

theorem length_clientUrl_le
    {query : Bytes} (short : query.length ≤ dnsQueryMax) :
    (clientUrl query).length ≤ 700 := by
  have text := length_urlsafeB64encode_le short
  rw [clientUrl, List.length_append]
  change 15 + _ ≤ 700
  omega

theorem plain_of_mem_clientLine
    {query : Bytes} {character : UInt8}
    (member : character ∈ clientLine query) :
    character ≠ 0 ∧ character ≠ 13 := by
  have outside :
      ∀ text : Bytes, 0 ∉ text → 13 ∉ text → character ∈ text →
        character ≠ 0 ∧ character ≠ 13 := by
    intro text noNul noReturn inText
    exact
      ⟨fun isNul => noNul (isNul ▸ inText),
        fun isReturn => noReturn (isReturn ▸ inText)⟩
  rw [clientLine, List.append_cons] at member
  rcases List.mem_append.mp member with inMethod | behind
  · exact outside (methodGet ++ [32]) (by decide) (by decide) inMethod
  rcases List.mem_append.mp behind with inUrl | inVersion
  · obtain ⟨noBlank, notNul⟩ := plain_of_mem_clientUrl inUrl
    refine ⟨notNul, ?_⟩
    intro isReturn
    rw [isReturn] at noBlank
    exact absurd noBlank (by decide)
  · exact outside (32 :: httpVersion) (by decide) (by decide) inVersion

/-- The words of the line are its method and its URL. -/
theorem words_of_clientLine (query : Bytes) :
    methodWord (clientLine query) = methodGet ∧
      uriWord (clientLine query) = clientUrl query := by
  have url :
      ∀ character, character ∈ clientUrl query →
        (! isSpace character) = true := by
    intro character member
    rw [(plain_of_mem_clientUrl member).1]
    rfl
  have begins : (clientUrl query).dropWhile isSpace = clientUrl query := rfl
  have first :
      scanWord (clientLine query) =
        (methodGet, 32 :: (clientUrl query ++ 32 :: httpVersion)) :=
    rfl
  have second :
      (scanWord (32 :: (clientUrl query ++ 32 :: httpVersion))).1 =
        clientUrl query := by
    have taken :
        (clientUrl query ++ 32 :: httpVersion).takeWhile (! isSpace ·) =
          clientUrl query := by
      rw [List.takeWhile_append_of_pos url]
      exact List.append_nil _
    exact taken
  refine ⟨?_, ?_⟩
  · rw [methodWord, first]
  · rw [uriWord, first, second]

/-- A line with two words that fit their arrays is read as these. -/
theorem scanRequestLine_of_short
    {line : Bytes} (noNul : ∀ character, character ∈ line → character ≠ 0)
    (method : methodWord line ≠ []) (uri : uriWord line ≠ [])
    (shortMethod : (methodWord line).length < DohArray.methodStr.size)
    (shortUri : (uriWord line).length < DohArray.path.size) :
    scanRequestLine line = .ok (some (methodWord line, uriWord line)) := by
  have roomMethod :
      (Filled.empty : DohFilled .methodStr).elements.length +
          (methodWord line ++ [0]).length ≤ DohArray.methodStr.size := by
    rw [Filled.elements_empty, List.length_nil, List.length_append]
    exact (Nat.zero_add _).le.trans shortMethod
  have roomUri :
      (Filled.empty : DohFilled .path).elements.length +
          (uriWord line ++ [0]).length ≤ DohArray.path.size := by
    rw [Filled.elements_empty, List.length_nil, List.length_append]
    exact (Nat.zero_add _).le.trans shortUri
  rw [scanRequestLine, if_neg method, Filled.write_bind roomMethod,
    if_neg uri, Filled.write_bind roomUri, Filled.elements_extend,
    Filled.elements_extend, Filled.elements_empty, Filled.elements_empty,
    List.nil_append, List.nil_append,
    content_append_nul (noNul_methodWord noNul),
    content_append_nul (noNul_uriWord noNul)]

theorem scanRequestLine_clientLine
    {query : Bytes} (short : query.length ≤ dnsQueryMax) :
    scanRequestLine (clientLine query) =
      .ok (some (methodGet, clientUrl query)) := by
  obtain ⟨method, url⟩ := words_of_clientLine query
  have fits := length_clientUrl_le short
  have notEmpty : clientUrl query ≠ [] := by
    intro empty
    cases empty
  have scanned :=
    scanRequestLine_of_short
      (fun _ member => (plain_of_mem_clientLine member).1)
      (by rw [method]; decide) (by rw [url]; exact notEmpty)
      (by rw [method]; decide)
      (by
        rw [url]
        exact Nat.lt_of_le_of_lt fits (by decide))
  rw [method, url] at scanned
  exact scanned

/-- The line of the request ends where the parser looks for its end, whatever
the stack holds behind the request. -/
theorem parseHttpRequest_clientRequest
    {query : Bytes} (short : query.length ≤ dnsQueryMax) (beyond : Bytes) :
    parseHttpRequest (clientRequest query) beyond =
      .ok (some ⟨.get, clientUrl query, []⟩) := by
  have noNul : (0 : UInt8) ∉ clientLine query ++ [13, 10] := by
    intro member
    rcases List.mem_append.mp member with inLine | inEnd
    · exact (plain_of_mem_clientLine inLine).1 rfl
    · exact absurd inEnd (by decide)
  have noReturn : 13 ∉ clientLine query :=
    fun member => (plain_of_mem_clientLine member).2 rfl
  obtain ⟨rest, text⟩ :
      ∃ rest, content (clientRequest query ++ beyond) =
        clientLine query ++ 13 :: 10 :: rest := by
    refine ⟨content (headerText [hostField, connectionField] ++ beyond), ?_⟩
    have parts :
        clientRequest query ++ beyond =
          (clientLine query ++ [13, 10]) ++
            (headerText [hostField, connectionField] ++ beyond) := by
      rw [clientRequest, headerText_cons]
      simp only [List.append_assoc, List.cons_append, List.nil_append]
    rw [parts, content_append_of_noNul noNul, List.append_assoc]
    rfl
  have lineLen : (clientLine query).length < DohArray.line.size := by
    have fits := length_clientUrl_le short
    rw [clientLine, List.length_append, List.length_cons, List.length_append]
    change 3 + (_ + 9 + 1) < 2048
    omega
  rw [parseHttpRequest_eq_parseText, text,
    parseText_of_line (strstr_lineEnd noReturn rest) lineLen,
    List.take_left' rfl, parseLine, scanRequestLine_clientLine short]
  have isGet : strcasecmpEq methodGet methodGet = true := by
    decide
  exact
    requestOf_of_get isGet (clientRequest query)
      (clientLine query ++ 13 :: 10 :: rest) (clientUrl query)

/-- The text behind `dns=` is the whole encoding. -/
theorem afterParam_clientUrl (query : Bytes) :
    afterParam (clientUrl query) paramDns =
      some (urlsafeB64encode query) := by
  have found :
      strstr (clientUrl query) (63 :: paramDns ++ [61]) =
        some dnsQueryPath.length := by
    have absent : (63 : UInt8) ∉ dnsQueryPath := by
      decide
    have here :
        strstr (63 :: paramDns ++ [61] ++ urlsafeB64encode query)
            (63 :: paramDns ++ [61]) = some 0 :=
      strstr_of_prefix (List.prefix_append _ _)
    rw [clientUrl, List.append_assoc]
    rw [List.cons_append] at here ⊢
    rw [strstr_append_of_notMem absent, here, Option.map_some, Nat.zero_add]
  rw [afterParam, found]
  rfl

/-- The padded text is decoded to the query. -/
theorem b64Output_urlsafeB64encode (query : Bytes) :
    b64Output 0 0 ((urlsafeB64encode query).map plainB64) = query := by
  have ofAlphabet :
      ∀ character, character ∈ Base64.encode Base64.standard query →
        character ∈ Base64.alphabet Base64.standard :=
    fun _ member => Base64.mem_alphabet_of_mem_encode member
  have ofPadding :
      (Base64.padding query).map plainB64 = Base64.padding query := by
    rw [Base64.padding, List.map_replicate]
    rfl
  rw [urlsafeB64encode, List.map_append, map_plainB64_encode, ofPadding]
  apply b64Output_of_encoded
  · intro member
    exact absurd (ofAlphabet 0 member) (by decide)
  · intro member
    exact absurd (ofAlphabet 61 member) (by decide)
  · apply List.filter_eq_self.mpr
    intro character member
    exact decide_eq_true (ofAlphabet character member)
  · exact Or.inr rfl

/-- `handle_connection` hands over the query that the client has encoded. -/
theorem receiveRequest_clientRequest
    {query : Bytes} (short : query.length ≤ dnsQueryMax) (beyond : Bytes) :
    ∃ out, receiveRequest (clientRequest query) beyond = .ok (some out) ∧
      out.elements = query := by
  have long : 12 ≤ (clientRequest query).length := by
    rw [clientRequest, headerText_cons, List.length_append, List.length_cons,
      List.length_cons]
    change _ ≤ _ + (43 + 1 + 1)
    omega
  have noSpace : 32 ∉ clientUrl query := by
    intro member
    exact absurd (plain_of_mem_clientUrl member).1 (by decide)
  obtain ⟨out, decoded, same⟩ :=
    (b64Decode_elements_iff short).mpr (b64Output_urlsafeB64encode query)
  have fits : ¬ DohArray.b64.size ≤ (urlsafeB64encode query).length := by
    have size := length_urlsafeB64encode_le short
    change ¬ 2048 ≤ _
    omega
  refine ⟨out, ?_, same⟩
  rw [receiveRequest, if_neg (by omega),
    parseHttpRequest_clientRequest short beyond]
  change extractDnsQueryFromUri (clientUrl query) = _
  rw [extractDnsQueryFromUri_of_found noSpace (afterParam_clientUrl query),
    if_neg fits, decoded]
  rfl

theorem serveRequest_clientRequest
    (env : Env) (cfg : Config F) (fw : Firewall)
    {query : Bytes} (short : query.length ≤ dnsQueryMax) (beyond : Bytes)
    (peer : Option SockAddrIn) :
    serveRequest env cfg fw (clientRequest query) beyond peer =
      .ok
        (some
          (processDnsQuery env cfg fw query
            (some (peer.getD fallbackClient)))) := by
  obtain ⟨out, received, same⟩ := receiveRequest_clientRequest short beyond
  rw [serveRequest, received, ← same]
  rfl

/-! ## The response -/

theorem noReturn_decimal (len : Nat) : 13 ∉ decimal len := by
  intro member
  have isDigit := isDigit_of_mem_decimal member
  exact absurd isDigit.1 (by decide)

theorem isHeaderLine_of_mem_responseLines
    {len : Nat} {line : Bytes} (member : line ∈ responseLines len) :
    IsHeaderLine line := by
  rw [responseLines] at member
  rcases List.mem_cons.mp member with isStatus | member
  · rw [isStatus]
    exact ⟨by decide, by decide⟩
  rcases List.mem_cons.mp member with isType | member
  · rw [isType]
    exact ⟨by decide, by decide⟩
  · rw [List.mem_singleton.mp member]
    refine ⟨List.append_ne_nil_of_left_ne_nil (by decide) _, ?_⟩
    intro inLine
    rcases List.mem_append.mp inLine with inName | inNumber
    · exact absurd inName (by decide)
    · exact noReturn_decimal len inNumber

/-- The number of a length of four digits leaves room in `hdr`. -/
theorem responseHeader_eq {len : Nat} (short : len < 10 ^ 4) :
    responseHeader len = headerText (responseLines len) := by
  apply boundedCopy_eq_self
  have digits := decimal_length_le (by decide : 0 < 4) short
  rw [responseLines, headerText_cons, headerText_cons, headerText_cons]
  simp only [List.length_append, List.length_cons]
  change 15 + (37 + (16 + (decimal len).length + (2 + 1 + 1) + 1 + 1) + 1 + 1) <
    256
  omega

/-- The client reads what the callback is given. -/
theorem clientBody_dohResponseCb
    {data : Bytes} (short : data.length < 10 ^ 4) :
    clientBody (dohResponseCb data) = data := by
  obtain ⟨place, found, ends⟩ :=
    strstr_headerText
      (fun line member => isHeaderLine_of_mem_responseLines member) data
  have emptyLine : crlf ++ crlf = [13, 10, 13, 10] := rfl
  rw [clientBody, dohResponseCb, responseHeader_eq short, emptyLine,
    responseLines, found]
  exact List.drop_left' ends.symm

/-- The header announces its length. -/
theorem announcedLength_dohResponseCb
    {data : Bytes} (short : data.length < 10 ^ 4) :
    announcedLength (dohResponseCb data) = some data.length := by
  have shape :
      dohResponseCb data =
        (statusLine ++ crlf ++ (typeField ++ crlf) ++ lengthName) ++
          (decimal data.length ++ 13 :: (10 :: crlf ++ data)) := by
    rw [dohResponseCb, responseHeader_eq short, responseLines,
      headerText_cons, headerText_cons, headerText_cons]
    simp [headerText, crlf]
  have inFront :
      strstr (statusLine ++ crlf ++ (typeField ++ crlf) ++ lengthName)
          lengthName = some 56 := by
    decide
  have found :=
    ((strstr_front_eq_some_iff (by decide)
      (decimal data.length ++ 13 :: (10 :: crlf ++ data))).mp inFront).1
  have digits :
      ∀ character, character ∈ decimal data.length →
        decide (character ≠ 13) = true := by
    intro character member
    apply decide_eq_true
    intro isReturn
    exact noReturn_decimal data.length (isReturn ▸ member)
  have behind :
      ((dohResponseCb data).drop (56 + lengthName.length)).takeWhile (· ≠ 13) =
        decimal data.length := by
    have name :
        56 + lengthName.length =
          (statusLine ++ crlf ++ (typeField ++ crlf) ++ lengthName).length :=
      rfl
    rw [shape, name, List.drop_left, List.takeWhile_append_of_pos digits]
    exact List.append_nil _
  rw [announcedLength, shape, found, Option.map_some, ← shape, behind,
    decimalValue_decimal]

/-! ## A reply in a run -/

theorem length_patchId
    {raw : Bytes} (long : 2 ≤ raw.length) (id : UInt16) :
    (patchId id raw).length = raw.length := by
  rw [patchId, if_pos long, List.length_append, List.length_drop,
    bytes16_length]
  omega

theorem length_errorResponse (id : UInt16) :
    (errorResponse id).length = 12 := by
  rw [errorResponse]
  simp only
  rw [written_header (Nat.le_refl 12), headerBytes_length]

theorem length_sinkholePacket_le
    (query : DnsMessage) (first : DnsQuestion) :
    (sinkholePacket query first).length ≤ 512 := by
  obtain ⟨chunk, _, appends⟩ :=
    appends_sinkholeRest first query.questions
      (b := sinkholeStart query)
      (by rw [pos_sinkholeStart, size_sinkholeStart]; decide)
  have size := appends.size
  rw [size_sinkholeStart] at size
  rw [sinkholePacket_eq, DnsBuilder.written]
  exact (List.length_take_le' _ _).trans size.le

/-- Whatever a call answers after the exchanges of the past fits the receive
buffer of the resolver. -/
theorem length_response_le
    {history : Exchange → Prop} {env : Env} {cfg : Config F} {fw : Firewall}
    {inbuf : Bytes} {client : Option SockAddrIn} {site : Site} {data : Bytes}
    (supplied : Supplied history fw.cache)
    (known : ∀ x, history x → Dispatched cfg.resolver x)
    (sent :
      .respond site data ∈
        (processDnsQuery env cfg fw inbuf client).effects) :
    data.length ≤ ednsSize := by
  by_cases delivered : site = .delivery
  · rw [delivered] at sent
    obtain ⟨query, _, _, x, raw, _, _, exchanged, _, fetched, isReply⟩ :=
      delivered_processDnsQuery supplied sent
    have dispatched : Dispatched cfg.resolver x :=
      exchanged.elim (known x) dispatched_processDnsQuery
    have whole := fetched.whole
    rw [isReply, length_patchId (by omega)]
    exact dispatched.bounded raw fetched.reply
  have branch := branch_processDnsQuery env cfg fw inbuf client
  generalize processDnsQuery env cfg fw inbuf client = result
    at branch sent
  have errorFits : ∀ id, (errorResponse id).length ≤ ednsSize := by
    intro id
    rw [length_errorResponse]
    decide
  have sinkholeFits :
      ∀ (query : DnsMessage) (question : DnsQuestion),
        (sinkholePacket query question).length ≤ ednsSize :=
    fun query question =>
      (length_sinkholePacket_le query question).trans (by decide)
  have blocked :
      ∀ {tick : Nat} {place : Site} {state : Firewall}
        {query : DnsMessage} {question : DnsQuestion}
        {resolution : Option (Outcome × Bool)} {log : List Event},
        .respond site data ∈
            (blockedCall env tick place state client query question
              resolution log).effects →
          data.length ≤ ednsSize := by
    intro tick place state query question resolution log member
    rcases List.mem_cons.mp member with here | told
    · cases here
      exact sinkholeFits query question
    · exact absurd told (respond_not_mem_blockReports _ _ _ _ _)
  cases branch with
  | unparsed _ =>
      simp only [List.mem_singleton] at sent
      cases sent
      exact errorFits 0
  | limited _ _ => simp at sent
  | unasked _ _ _ => simp at sent
  | @banned query question more _ _ _ _ =>
      simp only [List.mem_singleton] at sent
      cases sent
      exact sinkholeFits query question
  | listed _ _ _ _ _ => exact blocked sent
  | generated _ _ _ _ _ _ => exact blocked sent
  | ruled _ _ => exact blocked sent
  | allowed _ _ =>
      rw [respond_sendAnswer sent delivered]
      exact errorFits _

/-- The call that a request of the client leads to. -/
def clientCall (env : Env) (query : Bytes) (peer : Option SockAddrIn) :
    QueryCall :=
  ⟨env, query, some (peer.getD fallbackClient)⟩

/-- After every run of calls, over any transport, a request of the client with
a query of at most 512 bytes is served as its query is, whatever the stack
holds behind it.  Every packet that is answered then reaches the client as the
callback was given it, behind a header that announces its length. -/
theorem clientRequest_served
    (cfg : Config F) (now : Int) (calls : List QueryCall)
    (env : Env) (query beyond : Bytes) (peer : Option SockAddrIn)
    (short : query.length ≤ dnsQueryMax) :
    serveRequest env cfg (run (queryCall cfg) (firewallStart now) calls)
          (clientRequest query) beyond peer =
        .ok
          (some
            ((clientCall env query peer).result cfg
              (run (queryCall cfg) (firewallStart now) calls))) ∧
      ∀ site data,
        .respond site data ∈
            ((clientCall env query peer).result cfg
              (run (queryCall cfg) (firewallStart now) calls)).effects →
          clientBody (dohResponseCb data) = data ∧
            announcedLength (dohResponseCb data) = some data.length := by
  have supplied :=
    @supplied_run F cfg (firewallStart now) rfl calls
  refine ⟨serveRequest_clientRequest env cfg _ short beyond peer, ?_⟩
  intro site data sent
  have fits :=
    length_response_le supplied (fun x exchanged => exchanged.dispatched) sent
  have small : data.length < 10 ^ 4 := Nat.lt_of_le_of_lt fits (by decide)
  exact
    ⟨clientBody_dohResponseCb small, announcedLength_dohResponseCb small⟩

/-- The client asks for the address of `a.` with another request line in the
stack behind its request. -/
theorem clientRequest_served_queryA :
    serveRequest (envAnswering (replyA 60)) configDefault
          (run (queryCall configDefault) (firewallStart 0) [])
          (clientRequest queryA) longMethod (some visitor) =
        .ok
          (some
            ((clientCall (envAnswering (replyA 60)) queryA
                (some visitor)).result configDefault
              (run (queryCall configDefault) (firewallStart 0) []))) ∧
      ∀ site data,
        .respond site data ∈
            ((clientCall (envAnswering (replyA 60)) queryA
                (some visitor)).result configDefault
              (run (queryCall configDefault) (firewallStart 0) [])).effects →
          clientBody (dohResponseCb data) = data ∧
            announcedLength (dohResponseCb data) = some data.length :=
  clientRequest_served configDefault 0 [] (envAnswering (replyA 60)) queryA
    longMethod (some visitor) (by decide)

end DnsFirewall
