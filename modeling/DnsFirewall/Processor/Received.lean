import DnsFirewall.Processor.Doh

/-!
# What was received of a request

`parse_http_request` is given the number of received bytes and uses it only
for the length of the body: both its searches run to the first NUL, which may
lie in what the stack held behind the received bytes.  A request line without
its end, or a POST request without the end of its header, is then completed by
that.  The parser looks only at what was received exactly when no leftover
can do so.
-/

namespace DnsFirewall

open CString FixedArrays

/-- The leftover fills the buffer behind the received bytes. -/
def Leftover (data beyond : Bytes) : Prop :=
  recvBuf ≤ data.length + beyond.length

/-- The parser gives the same result on every two buffers that begin with the
received bytes, the body of a POST request is what was received behind the
first empty line, and its length never wraps. -/
structure LooksAtReceived (data : Bytes) : Prop where
  same :
    ∀ first second, Leftover data first → Leftover data second →
      parseHttpRequest data first = parseHttpRequest data second
  body :
    ∀ beyond uri body, Leftover data beyond →
      parseHttpRequest data beyond = .ok (some ⟨.post, uri, body⟩) →
        ∃ headerLen,
          strstr data (crlf ++ crlf) = some headerLen ∧
            body = data.drop (headerLen + 4)
  length :
    ∀ beyond, Leftover data beyond →
      parseHttpRequest data beyond ≠ .error .fault

/-- `sscanf` writes behind the end of an array, or reads the method GET. -/
def TakenLine (line : Bytes) : Prop :=
  match scanRequestLine line with
  | .error _ => True
  | .ok none => False
  | .ok (some (methodStr, _)) => strcasecmpEq methodStr methodGet = true

/-- `sscanf` reads the method POST. -/
def PostLine (line : Bytes) : Prop :=
  match scanRequestLine line with
  | .ok (some (methodStr, _)) => strcasecmpEq methodStr methodPost = true
  | _ => False

/-- A line whose end was not received, and which begins with what was; a
carriage return may have been received behind it. -/
structure Continues (line data : Bytes) : Prop where
  begins : data <+: line ++ [13]
  short : line.length < DohArray.line.size
  noNul : ∀ character, character ∈ line → character ≠ 0
  noEnd : strstr line crlf = none

/-- The searches end at a NUL among the received bytes; or the request line
was received, and its whole header if it is a POST line that fits the array;
or no line that continues the received bytes is read as GET or POST or holds
too long a word. -/
def EnoughReceived (data : Bytes) : Prop :=
  (0 : UInt8) ∈ data ∨
    match strstr data crlf with
    | some lineLen =>
        lineLen < DohArray.line.size → PostLine (data.take lineLen) →
          ∃ headerLen, strstr data (crlf ++ crlf) = some headerLen
    | none =>
        ∀ line, Continues line data → ¬ TakenLine line ∧ ¬ PostLine line

/-- In a buffer, the line of a GET request or with too long a word ends among
the received bytes, and so does the header of a POST request, if it ends at
all. -/
def Confined (data beyond : Bytes) : Prop :=
  ∀ lineLen,
    strstr (content (data ++ beyond)) crlf = some lineLen →
      lineLen < DohArray.line.size →
        (TakenLine ((content (data ++ beyond)).take lineLen) →
            lineLen + 2 ≤ data.length) ∧
          (PostLine ((content (data ++ beyond)).take lineLen) →
            ∀ headerLen,
              strstr (content (data ++ beyond)) (crlf ++ crlf) =
                  some headerLen →
                headerLen + 4 ≤ data.length)

/-! ## The line in the buffer -/

/-- A line without a line end ends at the one behind it. -/
theorem strstr_behind
    {line : Bytes} (noEnd : strstr line crlf = none) (rest : Bytes) :
    strstr (line ++ crlf ++ rest) crlf = some line.length := by
  have size : crlf.length = 2 := rfl
  obtain ⟨place, found⟩ :=
    exists_strstr (List.suffix_append line crlf).isInfix
  obtain ⟨_, begins, _⟩ := strstr_eq_some_iff.mp found
  have fits := begins.length_le
  rw [List.length_drop, List.length_append, size] at fits
  have whole : strstr (line ++ crlf) crlf = some line.length := by
    by_cases inside : place + 2 ≤ line.length
    · have inLine : strstr line crlf = some place :=
        (strstr_front_eq_some_iff (by decide) crlf).mpr ⟨found, inside⟩
      rw [noEnd] at inLine
      cases inLine
    -- the line feed lies behind the carriage return, which ends the line
    · have feed : (line ++ crlf)[place + 1]? = some 10 := by
        obtain ⟨tail, parts⟩ := begins
        rw [← List.getElem?_drop, ← parts]
        rfl
      by_cases inFront : place + 1 = line.length
      · rw [inFront, List.getElem?_append_right (Nat.le_refl _),
          Nat.sub_self] at feed
        exact absurd feed (by decide)
      · have atEnd : place = line.length := by omega
        rw [← atEnd]
        exact found
  exact ((strstr_front_eq_some_iff (by decide) rest).mp whole).1

/-! ## The parser by its line -/

/-- `parse_http_request` behind the copy of the line. -/
def parseLine (data text line : Bytes) : DohRun (Option HttpRequest) := do
  match ← scanRequestLine line with
  | none => .ok none
  | some (methodStr, path) => requestOf data text methodStr path

/-- The parser of the received bytes and the string in the buffer. -/
def parseText (data text : Bytes) : DohRun (Option HttpRequest) :=
  match strstr text crlf with
  | none => .ok none
  | some lineLen =>
      if DohArray.line.size ≤ lineLen then .ok none
      else parseLine data text (text.take lineLen)

theorem parseHttpRequest_eq_parseText (data beyond : Bytes) :
    parseHttpRequest data beyond =
      parseText data (content (data ++ beyond)) := by
  have noNul :
      ∀ character, character ∈ content (data ++ beyond) → character ≠ 0 :=
    fun _ member => ne_zero_of_mem_content member
  rw [parseHttpRequest]
  generalize content (data ++ beyond) = text at noNul
  rw [parseText]
  cases strstr text crlf with
  | none => rfl
  | some lineLen =>
      simp only
      by_cases long : DohArray.line.size ≤ lineLen
      · rw [if_pos long, if_pos long]
      · obtain ⟨line, copied, isLine⟩ :=
          copyLine_total noNul (Nat.lt_of_not_le long)
        rw [if_neg long, if_neg long, copied, ← isLine]
        rfl

/-- Zeros behind the received bytes add nothing to them. -/
theorem parseHttpRequest_zeros (data : Bytes) (count : Nat) :
    parseHttpRequest data (List.replicate count 0) =
      parseText data (content data) := by
  rw [parseHttpRequest_eq_parseText]
  cases count with
  | zero => rw [List.replicate_zero, List.append_nil]
  | succ count => rw [List.replicate_succ, content_append_zero]

section Texts

variable {data text : Bytes} {lineLen count : Nat}

theorem parseText_of_line
    (found : strstr text crlf = some lineLen)
    (short : lineLen < DohArray.line.size) :
    parseText data text = parseLine data text (text.take lineLen) := by
  rw [parseText, found]
  simp only
  rw [if_neg (Nat.not_le_of_lt short)]

/-- The line that ends among the first characters is their line. -/
theorem parseText_take_of_inside
    (found : strstr text crlf = some lineLen)
    (short : lineLen < DohArray.line.size) (inside : lineLen + 2 ≤ count) :
    parseText data (text.take count) =
      parseLine data (text.take count) (text.take lineLen) := by
  have alsoFound : strstr (text.take count) crlf = some lineLen :=
    (strstr_take_eq_some_iff (by decide)).mpr ⟨found, inside⟩
  rw [parseText_of_line alsoFound short, List.take_take,
    Nat.min_eq_left (by omega)]

/-- Without the end of a line there is no request. -/
theorem parseText_take_of_outside
    (outside :
      ∀ lineLen, strstr text crlf = some lineLen →
        lineLen < DohArray.line.size → count < lineLen + 2) :
    parseText data (text.take count) = .ok none := by
  rw [parseText]
  cases found : strstr (text.take count) crlf with
  | none => rfl
  | some lineLen =>
      obtain ⟨inText, inside⟩ :=
        (strstr_take_eq_some_iff (by decide)).mp found
      simp only
      by_cases long : DohArray.line.size ≤ lineLen
      · rw [if_pos long]
      · have away := outside lineLen inText (Nat.lt_of_not_le long)
        have size : crlf.length = 2 := rfl
        omega

/-- The end of the header does not lie in front of that of the line. -/
theorem lineLen_le_headerLen
    {headerLen : Nat} (found : strstr text crlf = some lineLen)
    (header : strstr text (crlf ++ crlf) = some headerLen) :
    lineLen ≤ headerLen := by
  obtain ⟨_, begins, _⟩ := strstr_eq_some_iff.mp header
  by_contra behind
  exact
    (strstr_eq_some_iff.mp found).2.2 headerLen (Nat.lt_of_not_le behind)
      ((List.prefix_append crlf crlf).trans begins)

end Texts

/-- No method is both. -/
theorem not_get_of_post
    {methodStr : Bytes} (post : strcasecmpEq methodStr methodPost = true) :
    ¬ strcasecmpEq methodStr methodGet = true := by
  intro get
  rw [strcasecmpEq, beq_iff_eq] at post get
  rw [post] at get
  exact absurd get (by decide)

theorem requestOf_of_get
    {methodStr : Bytes} (get : strcasecmpEq methodStr methodGet = true)
    (data text path : Bytes) :
    requestOf data text methodStr path = .ok (some ⟨.get, path, []⟩) := by
  rw [requestOf, if_pos get]

theorem requestOf_of_post
    {methodStr : Bytes} (post : strcasecmpEq methodStr methodPost = true)
    (data text path : Bytes) :
    requestOf data text methodStr path =
      match strstr text (crlf ++ crlf) with
      | none => .ok none
      | some headerLen =>
          if data.length < headerLen + 4 then .error .fault
          else .ok (some ⟨.post, path, data.drop (headerLen + 4)⟩) :=
  (if_neg (not_get_of_post post)).trans (if_pos post)

theorem requestOf_of_other
    {methodStr : Bytes} (notGet : ¬ strcasecmpEq methodStr methodGet = true)
    (notPost : ¬ strcasecmpEq methodStr methodPost = true)
    (data text path : Bytes) :
    requestOf data text methodStr path = .ok none := by
  rw [requestOf, if_neg notGet, if_neg notPost]

/-- `sscanf` stops only at the end of an array. -/
theorem scanRequestLine_ne_fault (line : Bytes) :
    scanRequestLine line ≠ .error .fault := by
  have writes :
      ∀ {array : DohArray} {filled : DohFilled array} {bytes : Bytes},
        filled.write bytes ≠ .error .fault := by
    intro array filled bytes stopped
    rw [Filled.write] at stopped
    split at stopped
    · cases stopped
    · cases stopped
  intro stopped
  rw [scanRequestLine] at stopped
  split at stopped
  · cases stopped
  · cases first :
        (Filled.empty : DohFilled .methodStr).write
          (methodWord line ++ [0]) with
    | error stop =>
        rw [first] at stopped
        cases stopped
        exact writes first
    | ok methodStr =>
        rw [first] at stopped
        simp only [bind, Except.bind] at stopped
        split at stopped
        · cases stopped
        · cases second :
              (Filled.empty : DohFilled .path).write
                (uriWord line ++ [0]) with
          | error stop =>
              rw [second] at stopped
              cases stopped
              exact writes second
          | ok path =>
              rw [second] at stopped
              cases stopped

/-! ## The three kinds of lines -/

section Lines

variable {line : Bytes}

/-- The result of such a line does not depend on the rest. -/
theorem parseLine_of_taken (taken : TakenLine line) :
    ∃ result : DohRun (Option HttpRequest),
      (∀ data text, parseLine data text line = result) ∧
        result ≠ .ok none ∧ result ≠ .error .fault ∧
          ∀ uri body, result ≠ .ok (some ⟨.post, uri, body⟩) := by
  rw [TakenLine] at taken
  cases scanned : scanRequestLine line with
  | error stop =>
      refine ⟨.error stop, ?_, nofun, ?_, nofun⟩
      · intro data text
        rw [parseLine, scanned]
        rfl
      · intro fault
        have isFault : stop = .fault := Except.error.inj fault
        rw [isFault] at scanned
        exact scanRequestLine_ne_fault line scanned
  | ok words =>
      rw [scanned] at taken
      cases words with
      | none => exact taken.elim
      | some words =>
          obtain ⟨methodStr, path⟩ := words
          refine ⟨.ok (some ⟨.get, path, []⟩), ?_, nofun, nofun, nofun⟩
          intro data text
          rw [parseLine, scanned]
          exact requestOf_of_get taken data text path

/-- A POST request is the received bytes behind its header. -/
theorem parseLine_of_post (post : PostLine line) :
    ∃ path : Bytes, ∀ data text,
      parseLine data text line =
        match strstr text (crlf ++ crlf) with
        | none => .ok none
        | some headerLen =>
            if data.length < headerLen + 4 then .error .fault
            else .ok (some ⟨.post, path, data.drop (headerLen + 4)⟩) := by
  rw [PostLine] at post
  cases scanned : scanRequestLine line with
  | error stop =>
      rw [scanned] at post
      exact post.elim
  | ok words =>
      rw [scanned] at post
      cases words with
      | none => exact post.elim
      | some words =>
          obtain ⟨methodStr, path⟩ := words
          refine ⟨path, ?_⟩
          intro data text
          rw [parseLine, scanned]
          exact requestOf_of_post post data text path

theorem parseLine_of_other
    (notTaken : ¬ TakenLine line) (notPost : ¬ PostLine line)
    (data text : Bytes) :
    parseLine data text line = .ok none := by
  rw [TakenLine] at notTaken
  rw [PostLine] at notPost
  rw [parseLine]
  cases scanned : scanRequestLine line with
  | error stop =>
      rw [scanned] at notTaken
      exact absurd trivial notTaken
  | ok words =>
      rw [scanned] at notTaken notPost
      cases words with
      | none => rfl
      | some words =>
          obtain ⟨methodStr, path⟩ := words
          exact requestOf_of_other notTaken notPost data text path

end Lines

/-! ## One buffer -/

/-- What the parser gives for one buffer is what it gives for the received
bytes alone, and the body is among them. -/
structure ReceivedOnly (data beyond : Bytes) : Prop where
  same :
    parseHttpRequest data beyond = parseText data (content data)
  body :
    ∀ uri body,
      parseHttpRequest data beyond = .ok (some ⟨.post, uri, body⟩) →
        ∃ headerLen,
          strstr data (crlf ++ crlf) = some headerLen ∧
            body = data.drop (headerLen + 4)
  length : parseHttpRequest data beyond ≠ .error .fault

/-- A result without a request. -/
theorem receivedOnly_of_none
    {data beyond : Bytes}
    (nothing : parseHttpRequest data beyond = .ok none)
    (alone : parseText data (content data) = .ok none) :
    ReceivedOnly data beyond where
  same := nothing.trans alone.symm
  body := by
    intro uri body accepted
    rw [nothing] at accepted
    cases accepted
  length := by
    rw [nothing]
    nofun

/-- A header that ends in the string of the received bytes ends there in the
bytes themselves. -/
theorem strstr_of_content
    {data beyond : Bytes} {headerLen : Nat}
    (header :
      strstr (content (data ++ beyond)) (crlf ++ crlf) = some headerLen)
    (inside : headerLen + 4 ≤ data.length) :
    strstr data (crlf ++ crlf) = some headerLen := by
  have inContent : strstr (content data) (crlf ++ crlf) = some headerLen := by
    rw [content_eq_take data beyond]
    exact (strstr_take_eq_some_iff (by decide)).mpr ⟨header, inside⟩
  obtain ⟨rest, whole⟩ : content data <+: data := List.takeWhile_prefix _
  rw [← whole]
  exact ((strstr_front_eq_some_iff (by decide) rest).mp inContent).1

section OneBuffer

variable {data beyond : Bytes} {lineLen : Nat}

/-- The received bytes alone have no line where it ends behind them. -/
theorem parseText_content_of_outside
    (found : strstr (content (data ++ beyond)) crlf = some lineLen)
    (outside : ¬ lineLen + 2 ≤ data.length) :
    parseText data (content data) = .ok none := by
  rw [content_eq_take data beyond]
  apply parseText_take_of_outside
  intro otherLen alsoFound _
  rw [found] at alsoFound
  cases alsoFound
  exact Nat.lt_of_not_le outside

theorem parseHttpRequest_of_line
    (found : strstr (content (data ++ beyond)) crlf = some lineLen)
    (short : lineLen < DohArray.line.size) :
    parseHttpRequest data beyond =
      parseLine data (content (data ++ beyond))
        ((content (data ++ beyond)).take lineLen) := by
  rw [parseHttpRequest_eq_parseText, parseText_of_line found short]

/-- The received bytes alone have the line that ends among them. -/
theorem parseText_content_of_inside
    (found : strstr (content (data ++ beyond)) crlf = some lineLen)
    (short : lineLen < DohArray.line.size)
    (inside : lineLen + 2 ≤ data.length) :
    parseText data (content data) =
      parseLine data (content data)
        ((content (data ++ beyond)).take lineLen) := by
  rw [content_eq_take data beyond]
  exact parseText_take_of_inside found short inside

/-- A taken line is confined if it ends among the received bytes. -/
theorem receivedOnly_iff_of_taken
    (found : strstr (content (data ++ beyond)) crlf = some lineLen)
    (short : lineLen < DohArray.line.size)
    (taken : TakenLine ((content (data ++ beyond)).take lineLen)) :
    ReceivedOnly data beyond ↔ lineLen + 2 ≤ data.length := by
  obtain ⟨result, isResult, notNone, notFault, notPost⟩ :=
    parseLine_of_taken taken
  have whole : parseHttpRequest data beyond = result := by
    rw [parseHttpRequest_of_line found short, isResult]
  constructor
  · intro only
    by_contra outside
    apply notNone
    rw [← whole, only.same]
    exact parseText_content_of_outside found outside
  · intro inside
    refine ⟨?_, ?_, ?_⟩
    · rw [whole, parseText_content_of_inside found short inside, isResult]
    · intro uri body accepted
      exact absurd (whole.symm.trans accepted) (notPost uri body)
    · rw [whole]
      exact notFault

section Post

variable (found : strstr (content (data ++ beyond)) crlf = some lineLen)
variable (short : lineLen < DohArray.line.size)
variable (post : PostLine ((content (data ++ beyond)).take lineLen))

include found short post

/-- A POST request without the end of its header is none. -/
theorem receivedOnly_of_noHeader
    (noHeader : strstr (content (data ++ beyond)) (crlf ++ crlf) = none) :
    ReceivedOnly data beyond := by
  obtain ⟨path, isResult⟩ := parseLine_of_post post
  apply receivedOnly_of_none
  · rw [parseHttpRequest_of_line found short, isResult, noHeader]
  · by_cases inside : lineLen + 2 ≤ data.length
    · rw [parseText_content_of_inside found short inside, isResult]
      cases earlier : strstr (content data) (crlf ++ crlf) with
      | none => rfl
      | some headerLen =>
          rw [content_eq_take data beyond] at earlier
          have alsoHere :=
            ((strstr_take_eq_some_iff (by decide)).mp earlier).1
          rw [noHeader] at alsoHere
          cases alsoHere
    · exact parseText_content_of_outside found inside

/-- Where its header ends, it is to end among the received bytes. -/
theorem receivedOnly_iff_of_header
    {headerLen : Nat}
    (header :
      strstr (content (data ++ beyond)) (crlf ++ crlf) = some headerLen) :
    ReceivedOnly data beyond ↔ headerLen + 4 ≤ data.length := by
  obtain ⟨path, isResult⟩ := parseLine_of_post post
  have whole := parseHttpRequest_of_line found short
  rw [isResult, header] at whole
  simp only at whole
  constructor
  · intro only
    by_contra outside
    rw [if_pos (Nat.lt_of_not_le outside)] at whole
    exact only.length whole
  · intro inside
    have notOutside := Nat.not_lt_of_le inside
    have order := lineLen_le_headerLen found header
    have alone :
        strstr (content data) (crlf ++ crlf) = some headerLen := by
      rw [content_eq_take data beyond]
      exact (strstr_take_eq_some_iff (by decide)).mpr ⟨header, inside⟩
    rw [if_neg notOutside] at whole
    refine ⟨?_, ?_, ?_⟩
    · rw [whole, parseText_content_of_inside found short (by omega),
        isResult, alone]
      exact (if_neg notOutside).symm
    · intro uri body accepted
      rw [whole] at accepted
      cases accepted
      exact ⟨headerLen, strstr_of_content header inside, rfl⟩
    · rw [whole]
      nofun

/-- A POST request is confined if its header ends among the received bytes or
not at all. -/
theorem receivedOnly_iff_of_post :
    ReceivedOnly data beyond ↔
      ∀ headerLen,
        strstr (content (data ++ beyond)) (crlf ++ crlf) = some headerLen →
          headerLen + 4 ≤ data.length := by
  cases header : strstr (content (data ++ beyond)) (crlf ++ crlf) with
  | none =>
      exact
        iff_of_true (receivedOnly_of_noHeader found short post header) nofun
  | some headerLen =>
      rw [receivedOnly_iff_of_header found short post header]
      constructor
      · intro inside other same
        cases same
        exact inside
      · intro within
        exact within headerLen rfl

end Post

/-- Every other line gives no request, wherever it ends. -/
theorem receivedOnly_of_other
    (found : strstr (content (data ++ beyond)) crlf = some lineLen)
    (short : lineLen < DohArray.line.size)
    (notTaken : ¬ TakenLine ((content (data ++ beyond)).take lineLen))
    (notPost : ¬ PostLine ((content (data ++ beyond)).take lineLen)) :
    ReceivedOnly data beyond := by
  apply receivedOnly_of_none
  · rw [parseHttpRequest_of_line found short,
      parseLine_of_other notTaken notPost]
  · by_cases inside : lineLen + 2 ≤ data.length
    · rw [parseText_content_of_inside found short inside,
        parseLine_of_other notTaken notPost]
    · exact parseText_content_of_outside found inside

/-- Without a line that fits there is no request. -/
theorem receivedOnly_of_noLine
    (noLine :
      ∀ lineLen, strstr (content (data ++ beyond)) crlf = some lineLen →
        DohArray.line.size ≤ lineLen) :
    ReceivedOnly data beyond := by
  apply receivedOnly_of_none
  · rw [parseHttpRequest_eq_parseText, parseText]
    cases found : strstr (content (data ++ beyond)) crlf with
    | none => rfl
    | some lineLen =>
        simp only
        rw [if_pos (noLine lineLen found)]
  · rw [content_eq_take data beyond]
    apply parseText_take_of_outside
    intro lineLen found short
    exact absurd (noLine lineLen found) (Nat.not_le_of_lt short)

end OneBuffer

/-- No line is both. -/
theorem not_takenLine_of_post
    {line : Bytes} (post : PostLine line) :
    ¬ TakenLine line := by
  intro taken
  obtain ⟨path, isPost⟩ := parseLine_of_post post
  obtain ⟨result, isResult, notNone, _, _⟩ := parseLine_of_taken taken
  exact notNone ((isResult [] []).symm.trans (isPost [] []))

theorem receivedOnly_iff_confined (data beyond : Bytes) :
    ReceivedOnly data beyond ↔ Confined data beyond := by
  rw [Confined]
  cases found : strstr (content (data ++ beyond)) crlf with
  | none =>
      refine iff_of_true (receivedOnly_of_noLine ?_) nofun
      intro lineLen alsoFound
      rw [found] at alsoFound
      cases alsoFound
  | some lineLen =>
      simp only [Option.some.injEq, forall_eq']
      by_cases short : lineLen < DohArray.line.size
      · simp only [short, true_implies]
        by_cases taken :
            TakenLine ((content (data ++ beyond)).take lineLen)
        · have notPost :
              ¬ PostLine ((content (data ++ beyond)).take lineLen) :=
            fun post => not_takenLine_of_post post taken
          rw [receivedOnly_iff_of_taken found short taken]
          constructor
          · intro inside
            exact ⟨fun _ => inside, fun post => absurd post notPost⟩
          · intro confined
            exact confined.1 taken
        · by_cases post :
              PostLine ((content (data ++ beyond)).take lineLen)
          · rw [receivedOnly_iff_of_post found short post]
            constructor
            · intro inside
              exact ⟨fun isTaken => absurd isTaken taken, fun _ => inside⟩
            · intro confined
              exact confined.2 post
          · apply iff_of_true
            · exact receivedOnly_of_other found short taken post
            · exact
                ⟨fun isTaken => absurd isTaken taken,
                  fun isPost => absurd isPost post⟩
      · apply iff_of_true
        · apply receivedOnly_of_noLine
          intro otherLen alsoFound
          rw [found] at alsoFound
          cases alsoFound
          exact Nat.le_of_not_lt short
        · intro isShort
          exact absurd isShort short

/-! ## Every buffer -/

/-- Zeros fill the buffer. -/
theorem leftover_zeros (data : Bytes) :
    Leftover data (List.replicate (recvBuf - data.length) 0) := by
  rw [Leftover, List.length_replicate]
  omega

/-- The lines and headers that matter are to lie among the received bytes for
every leftover. -/
theorem looksAtReceived_iff_confined (data : Bytes) :
    LooksAtReceived data ↔
      ∀ beyond, Leftover data beyond → Confined data beyond := by
  constructor
  · intro looks beyond leftover
    apply (receivedOnly_iff_confined data beyond).mp
    refine ⟨?_, ?_, looks.length beyond leftover⟩
    · rw [looks.same beyond _ leftover (leftover_zeros data)]
      exact parseHttpRequest_zeros data _
    · intro uri body accepted
      exact looks.body beyond uri body leftover accepted
  · intro confined
    have only :
        ∀ beyond, Leftover data beyond → ReceivedOnly data beyond :=
      fun beyond leftover =>
        (receivedOnly_iff_confined data beyond).mpr (confined beyond leftover)
    refine ⟨?_, ?_, ?_⟩
    · intro first second firstFills secondFills
      exact
        (only first firstFills).same.trans (only second secondFills).same.symm
    · intro beyond uri body leftover accepted
      exact (only beyond leftover).body uri body accepted
    · intro beyond leftover
      exact (only beyond leftover).length

/-! ## The received bytes -/

theorem noNul_emptyLine :
    ∀ character, character ∈ crlf ++ crlf → character ≠ 0 := by
  simp [crlf]

theorem noNul_of_not_mem
    {data : Bytes} (noNul : (0 : UInt8) ∉ data) :
    ∀ character, character ∈ data → character ≠ 0 := by
  intro character member isNul
  rw [isNul] at member
  exact noNul member

/-- The leftover that ends a text which begins with the received bytes. -/
def ending (rest : Bytes) : Bytes :=
  rest ++ 0 :: List.replicate recvBuf 0

theorem leftover_ending (data rest : Bytes) : Leftover data (ending rest) := by
  rw [Leftover, ending, List.length_append, List.length_cons,
    List.length_replicate]
  omega

theorem content_ending
    {data rest : Bytes}
    (noNul : ∀ character, character ∈ data ++ rest → character ≠ 0) :
    content (data ++ ending rest) = data ++ rest := by
  rw [ending, ← List.append_assoc]
  exact content_append_cons noNul _

/-- In a string that begins with bytes without a line end, the line continues
them. -/
theorem continues_of_line
    {data rest : Bytes} {lineLen : Nat}
    (noNul : ∀ character, character ∈ data ++ rest → character ≠ 0)
    (noEnd : strstr data crlf = none)
    (found : strstr (data ++ rest) crlf = some lineLen)
    (short : lineLen < DohArray.line.size) :
    Continues ((data ++ rest).take lineLen) data := by
  obtain ⟨inside, begins, _⟩ := strstr_eq_some_iff.mp found
  have size : crlf.length = 2 := rfl
  have behind : data.length ≤ lineLen + 1 := by
    by_contra received
    have inData : strstr data crlf = some lineLen :=
      (strstr_front_eq_some_iff (by decide) rest).mpr ⟨found, by omega⟩
    rw [noEnd] at inData
    cases inData
  refine ⟨?_, ?_, ?_, ?_⟩
  · obtain ⟨tail, parts⟩ := begins
    have whole :
        (data ++ rest).take lineLen ++ [13] ++ 10 :: tail = data ++ rest := by
      rw [List.append_assoc]
      exact (congrArg _ parts).trans (List.take_append_drop _ _)
    apply List.prefix_of_prefix_length_le (List.prefix_append data rest)
    · exact ⟨10 :: tail, whole⟩
    · rw [List.length_append, List.length_take, List.length_singleton]
      omega
  · rw [List.length_take]
    omega
  · intro character member
    exact noNul character (List.mem_of_mem_take member)
  · cases earlier : strstr ((data ++ rest).take lineLen) crlf with
    | none => rfl
    | some place =>
        obtain ⟨alsoFound, fits⟩ :=
          (strstr_take_eq_some_iff (by decide)).mp earlier
        rw [found] at alsoFound
        cases alsoFound
        omega

/-- Some leftover completes the line, and a header behind it. -/
theorem leftover_of_continues
    {line data : Bytes} (continued : Continues line data) :
    ∃ beyond,
      Leftover data beyond ∧
        content (data ++ beyond) = line ++ crlf ++ crlf := by
  obtain ⟨rest, parts⟩ := continued.begins
  have whole : data ++ (rest ++ 10 :: crlf) = line ++ crlf ++ crlf := by
    rw [← List.append_assoc, parts, List.append_assoc, List.append_assoc]
    rfl
  refine ⟨ending (rest ++ 10 :: crlf), leftover_ending _ _, ?_⟩
  rw [content_ending, whole]
  rw [whole, List.append_assoc]
  exact List.forall_mem_append.mpr ⟨continued.noNul, noNul_emptyLine⟩

section ForEveryLeftover

variable {data : Bytes}
variable (confined : ∀ beyond, Leftover data beyond → Confined data beyond)

include confined

/-- A line that continues the received bytes is not read. -/
theorem notRead_of_confined {line : Bytes} (continued : Continues line data) :
    ¬ TakenLine line ∧ ¬ PostLine line := by
  obtain ⟨beyond, leftover, isText⟩ := leftover_of_continues continued
  have behind := continued.begins.length_le
  rw [List.length_append, List.length_singleton] at behind
  have found := strstr_behind continued.noEnd crlf
  have cut : (line ++ crlf ++ crlf).take line.length = line := by
    rw [List.append_assoc]
    exact List.take_left' rfl
  have lines := confined beyond leftover line.length
  rw [isText, cut] at lines
  obtain ⟨taken, post⟩ := lines found continued.short
  constructor
  · intro isTaken
    have received := taken isTaken
    omega
  · intro isPost
    have occurs : crlf ++ crlf <:+: line ++ crlf ++ crlf := by
      rw [List.append_assoc]
      exact (List.suffix_append line _).isInfix
    obtain ⟨headerLen, header⟩ := exists_strstr occurs
    have received := post isPost headerLen header
    have order := lineLen_le_headerLen found header
    omega

/-- The header of a POST line that was received was received as well. -/
theorem header_of_confined
    (noNul : (0 : UInt8) ∉ data) {lineLen : Nat}
    (found : strstr data crlf = some lineLen)
    (short : lineLen < DohArray.line.size)
    (isPost : PostLine (data.take lineLen)) :
    ∃ headerLen, strstr data (crlf ++ crlf) = some headerLen := by
  have plain :
      ∀ character, character ∈ data ++ (crlf ++ crlf) → character ≠ 0 :=
    List.forall_mem_append.mpr ⟨noNul_of_not_mem noNul, noNul_emptyLine⟩
  obtain ⟨alsoFound, order⟩ :=
    (strstr_front_eq_some_iff (by decide) (crlf ++ crlf)).mp found
  have cut : (data ++ (crlf ++ crlf)).take lineLen = data.take lineLen :=
    List.take_append_of_le_length (by omega)
  have lines :=
    confined (ending (crlf ++ crlf)) (leftover_ending _ _) lineLen
  rw [content_ending plain, cut] at lines
  obtain ⟨headerLen, header⟩ :=
    exists_strstr (List.suffix_append data (crlf ++ crlf)).isInfix
  have received := (lines alsoFound short).2 isPost headerLen header
  exact
    ⟨headerLen,
      (strstr_front_eq_some_iff (by decide) _).mpr ⟨header, received⟩⟩

/-- Received bytes that are confined for every leftover are enough. -/
theorem enoughReceived_of_confined : EnoughReceived data := by
  by_cases nul : (0 : UInt8) ∈ data
  · exact Or.inl nul
  · right
    cases found : strstr data crlf with
    | none =>
        intro line continued
        exact notRead_of_confined confined continued
    | some lineLen =>
        intro short isPost
        exact header_of_confined confined nul found short isPost

end ForEveryLeftover

/-- Enough received bytes are confined for every leftover. -/
theorem confined_of_enoughReceived
    {data : Bytes} (enough : EnoughReceived data) (beyond : Bytes) :
    Confined data beyond := by
  intro lineLen found short
  by_cases nul : (0 : UInt8) ∈ data
  · rw [content_append_of_nul nul] at found ⊢
    have few := content_length_le data
    constructor
    · intro _
      exact Nat.le_trans (strstr_fits (by decide) found) few
    · intro _ headerLen header
      exact Nat.le_trans (strstr_fits (by decide) header) few
  · rw [content_append_of_noNul nul] at found ⊢
    have noNul :
        ∀ character, character ∈ data ++ content beyond →
          character ≠ 0 :=
      List.forall_mem_append.mpr
        ⟨noNul_of_not_mem nul, fun _ => ne_zero_of_mem_content⟩
    rcases enough with isNul | enough
    · exact absurd isNul nul
    · cases inData : strstr data crlf with
      | none =>
          rw [inData] at enough
          obtain ⟨notTaken, notPost⟩ :=
            enough _ (continues_of_line noNul inData found short)
          exact
            ⟨fun isTaken => absurd isTaken notTaken,
              fun isPost => absurd isPost notPost⟩
      | some place =>
          rw [inData] at enough
          obtain ⟨alsoFound, received⟩ :=
            (strstr_front_eq_some_iff (by decide) (content beyond)).mp inData
          rw [found] at alsoFound
          cases alsoFound
          refine ⟨fun _ => received, ?_⟩
          intro isPost headerLen header
          rw [List.take_append_of_le_length (by omega)] at isPost
          obtain ⟨otherLen, inFront⟩ := enough short isPost
          obtain ⟨alsoHeader, headerReceived⟩ :=
            (strstr_front_eq_some_iff (by decide) (content beyond)).mp inFront
          rw [header] at alsoHeader
          cases alsoHeader
          exact headerReceived

/-- The parser looks only at what was received exactly when that is enough. -/
theorem looksAtReceived_iff (data : Bytes) :
    LooksAtReceived data ↔ EnoughReceived data := by
  rw [looksAtReceived_iff_confined]
  constructor
  · exact enoughReceived_of_confined
  · intro enough beyond _
    exact confined_of_enoughReceived enough beyond

/-- `POST /d HTTP/1.1` and its line end; the rest of the request has not
arrived. -/
def openHeader : Bytes :=
  [80, 79, 83, 84, 32, 47, 100, 32, 72, 84, 84, 80, 47, 49, 46, 49, 13, 10]

/-- A line end left on the stack closes the header behind what was received,
and the length of the body wraps. -/
theorem not_looksAtReceived_openHeader : ¬ LooksAtReceived openHeader := by
  intro looks
  apply looks.length (ending crlf) (leftover_ending _ _)
  rw [parseHttpRequest_eq_parseText, content_ending (by decide +kernel)]
  rfl

end DnsFirewall
