import DnsFirewall.Wire.LegalName
import DnsFirewall.Wire.ParserSafety

/-!
# Build, then parse

A message of questions and records with legal names is written by the builder
functions as the concatenation of its encodings, and `dns_parse_message` turns
these bytes back into the message.  Both halves go section by section: one
lemma for a single item, and the rules of counted readers for a whole list.
-/

namespace DnsFirewall

open CString Cursor BigEndian

/-- A question to be built. -/
structure QuestionSpec where
  name : LegalName
  qtype : UInt16
  qclass : UInt16

/-- A record to be built, with RDATA that a 16-bit length can announce. -/
structure RecordSpec where
  name : LegalName
  type : UInt16
  rrclass : UInt16
  ttl : UInt32
  rdata : Bytes
  fits : rdata.length ≤ 65535

/-- The arguments of a whole run of the builder. -/
structure MessageSpec where
  id : UInt16
  flags : UInt16
  questions : List QuestionSpec
  answers : List RecordSpec
  authorities : List RecordSpec
  additionals : List RecordSpec
  questionsFit : questions.length ≤ 65535
  answersFit : answers.length ≤ 65535
  authoritiesFit : authorities.length ≤ 65535
  additionalsFit : additionals.length ≤ 65535

/-! ## Encodings -/

namespace QuestionSpec

def encode (question : QuestionSpec) : Bytes :=
  question.name.encode ++
    (bytes16 question.qtype ++ bytes16 question.qclass)

def parsed (question : QuestionSpec) : DnsQuestion :=
  { qname := question.name.text
    qtype := question.qtype
    qclass := question.qclass }

end QuestionSpec

/-- A parsed record with the RDATA bytes in place of the pointer. -/
structure RecordView where
  name : Bytes
  type : UInt16
  rrclass : UInt16
  ttl : UInt32
  rdlength : UInt16
  rdata : Bytes
deriving DecidableEq

def DnsRr.view (packet : Bytes) (rr : DnsRr) : RecordView :=
  { name := rr.name
    type := rr.type
    rrclass := rr.rrclass
    ttl := rr.ttl
    rdlength := rr.rdlength
    rdata := rr.rdataBytes packet }

namespace RecordSpec

def rdlength (record : RecordSpec) : UInt16 :=
  record.rdata.length.toUInt16

theorem rdlength_toNat (record : RecordSpec) :
    record.rdlength.toNat = record.rdata.length := by
  have fits := record.fits
  simp only [rdlength, Nat.toUInt16, UInt16.toNat_ofNat']
  omega

/-- The fixed fields between the name and the RDATA. -/
def fixedBytes (record : RecordSpec) : Bytes :=
  bytes16 record.type ++ (bytes16 record.rrclass ++
    (bytes32 record.ttl ++ bytes16 record.rdlength))

@[simp]
theorem fixedBytes_length (record : RecordSpec) :
    record.fixedBytes.length = 10 := by
  simp [fixedBytes]

def encode (record : RecordSpec) : Bytes :=
  record.name.encode ++ (record.fixedBytes ++ record.rdata)

/-- The record the parser is to give when the encoding stands at `start`. -/
def parsedAt (start : Nat) (record : RecordSpec) : DnsRr :=
  { name := record.name.text
    type := record.type
    rrclass := record.rrclass
    ttl := record.ttl
    rdlength := record.rdlength
    rdata := start + record.name.encode.length + 10 }

def view (record : RecordSpec) : RecordView :=
  { name := record.name.text
    type := record.type
    rrclass := record.rrclass
    ttl := record.ttl
    rdlength := record.rdlength
    rdata := record.rdata }

end RecordSpec

namespace MessageSpec

def header (message : MessageSpec) : DnsHeader :=
  { id := message.id
    flags := message.flags
    qdcount := message.questions.length.toUInt16
    ancount := message.answers.length.toUInt16
    nscount := message.authorities.length.toUInt16
    arcount := message.additionals.length.toUInt16 }

def itemBytes (message : MessageSpec) : Bytes :=
  message.questions.flatMap QuestionSpec.encode ++
    (message.answers.flatMap RecordSpec.encode ++
      (message.authorities.flatMap RecordSpec.encode ++
        message.additionals.flatMap RecordSpec.encode))

def encodedSize (message : MessageSpec) : Nat :=
  12 + message.itemBytes.length

end MessageSpec

/-! ## The builder run -/

/-- Build the items one after the other; the flag says that every call
returned zero. -/
def buildEach {α : Type} (build : DnsBuilder → α → Bool × DnsBuilder) :
    DnsBuilder → List α → Bool × DnsBuilder
  | b, [] => (true, b)
  | b, item :: items =>
      let built := build b item
      let rest := buildEach build built.2 items
      (built.1 && rest.1, rest.2)

def buildQuestion (b : DnsBuilder) (question : QuestionSpec) :
    Bool × DnsBuilder :=
  dnsBuildQuestion b question.name.text question.qtype question.qclass

def buildRecord (b : DnsBuilder) (record : RecordSpec) :
    Bool × DnsBuilder :=
  dnsBuildRr b record.name.text record.type record.rrclass record.ttl
    record.rdata record.rdlength

/-- Header, questions, answers, authorities and additionals in order. -/
def buildMessage (b : DnsBuilder) (message : MessageSpec) :
    Bool × DnsBuilder :=
  let header := message.header
  let built := dnsBuildResponseHeader b header.id header.flags
    header.qdcount header.ancount header.nscount header.arcount
  let questions := buildEach buildQuestion built.2 message.questions
  let answers := buildEach buildRecord questions.2 message.answers
  let authorities := buildEach buildRecord answers.2 message.authorities
  let additionals :=
    buildEach buildRecord authorities.2 message.additionals
  (built.1 && questions.1 && answers.1 && authorities.1 && additionals.1,
    additionals.2)

theorem buildQuestion_eq
    (question : QuestionSpec) {b : DnsBuilder}
    (room : b.pos + question.encode.length ≤ b.buf.length) :
    buildQuestion b question = (true, b.put question.encode) := by
  simp only [QuestionSpec.encode, List.length_append,
    bytes16_length] at room
  rw [buildQuestion, dnsBuildQuestion]
  rw [writeNameUncompressed_legal question.name (by omega)]
  simp only
  rw [if_neg (DnsBuilder.not_ensure_eq_false (by
      simp only [DnsBuilder.put_pos, DnsBuilder.put_buf_length]
      omega)),
    DnsBuilder.put_put (by
      simp only [DnsBuilder.put_pos, DnsBuilder.put_buf_length,
        bytes16_length]
      omega),
    DnsBuilder.put_put (by
      simp only [List.length_append, bytes16_length]
      omega)]
  rfl

theorem buildRecord_eq
    (record : RecordSpec) {b : DnsBuilder}
    (room : b.pos + record.encode.length ≤ b.buf.length) :
    buildRecord b record = (true, b.put record.encode) := by
  simp only [RecordSpec.encode, List.length_append,
    RecordSpec.fixedBytes_length] at room
  have announced := record.rdlength_toNat
  have fixed :
      (((((b.put record.name.encode).put (bytes16 record.type)).put
        (bytes16 record.rrclass)).put (bytes32 record.ttl)).put
        (bytes16 record.rdlength)) =
        (b.put record.name.encode).put record.fixedBytes := by
    simp (disch :=
        (simp only [DnsBuilder.put_pos, DnsBuilder.put_buf_length,
          List.length_append, bytes16_length, bytes32_length]; omega)) only
      [DnsBuilder.put_put, RecordSpec.fixedBytes, List.append_assoc]
  have joined :
      ((b.put record.name.encode).put record.fixedBytes).put
          record.rdata =
        b.put record.encode := by
    rw [DnsBuilder.put_put (by
        simp only [DnsBuilder.put_pos, DnsBuilder.put_buf_length,
          RecordSpec.fixedBytes_length]
        omega),
      DnsBuilder.put_put (by
        simp only [List.length_append, RecordSpec.fixedBytes_length]
        omega)]
    rfl
  rw [buildRecord, dnsBuildRr]
  rw [writeNameUncompressed_legal record.name (by omega)]
  simp only
  rw [if_neg (DnsBuilder.not_ensure_eq_false (by
      simp only [DnsBuilder.put_pos, DnsBuilder.put_buf_length]
      omega)), fixed]
  by_cases empty : record.rdlength = 0
  · -- without RDATA nothing is copied, and the encoding ends here
    have noData : record.rdata = [] := by
      apply List.eq_nil_of_length_eq_zero
      rw [← announced, empty]
      rfl
    rw [if_pos empty]
    rw [noData] at joined
    rw [← joined, DnsBuilder.put_nil (by
      simp only [DnsBuilder.put_pos, DnsBuilder.put_buf_length,
        RecordSpec.fixedBytes_length]
      omega)]
  · have whole : record.rdata.take record.rdlength.toNat = record.rdata :=
      List.take_of_length_le (by omega)
    rw [if_neg empty, whole, joined]

theorem buildEach_eq
    {α : Type} {build : DnsBuilder → α → Bool × DnsBuilder}
    {encode : α → Bytes}
    (single :
      ∀ (item : α) (b : DnsBuilder),
        b.pos + (encode item).length ≤ b.buf.length →
          build b item = (true, b.put (encode item)))
    (items : List α) (b : DnsBuilder)
    (room : b.pos + (items.flatMap encode).length ≤ b.buf.length) :
    buildEach build b items = (true, b.put (items.flatMap encode)) := by
  induction items generalizing b with
  | nil =>
      have unchanged : b.put [] = b :=
        DnsBuilder.put_nil (by simpa using room)
      simp [buildEach, unchanged]
  | cons item items inductionHypothesis =>
      simp only [List.flatMap_cons, List.length_append] at room
      have head := single item b (by omega)
      have tail :=
        inductionHypothesis (b.put (encode item)) (by
          simp only [DnsBuilder.put_pos, DnsBuilder.put_buf_length]
          omega)
      have joined := DnsBuilder.put_put room
      simp only [buildEach, head, tail, Bool.and_self, List.flatMap_cons,
        joined]

theorem buildMessage_eq
    (message : MessageSpec) {b : DnsBuilder}
    (room : b.pos + message.encodedSize ≤ b.buf.length) :
    buildMessage b message =
      (true,
        b.put
          (headerBytes message.header.id message.header.flags
            message.header.qdcount message.header.ancount
            message.header.nscount message.header.arcount ++
              message.itemBytes)) := by
  simp only [MessageSpec.encodedSize, MessageSpec.itemBytes,
    List.length_append] at room
  unfold buildMessage
  simp only
  rw [dnsBuildResponseHeader_of_le _ _ _ _ _ _ (by omega)]
  simp only
  rw [buildEach_eq (fun item b => buildQuestion_eq item) _ _ (by
    simp only [DnsBuilder.put_pos, DnsBuilder.put_buf_length,
      headerBytes_length]
    omega)]
  simp only
  rw [buildEach_eq (fun item b => buildRecord_eq item) _ _ (by
    simp only [DnsBuilder.put_pos, DnsBuilder.put_buf_length,
      headerBytes_length]
    omega)]
  simp only
  rw [buildEach_eq (fun item b => buildRecord_eq item) _ _ (by
    simp only [DnsBuilder.put_pos, DnsBuilder.put_buf_length,
      headerBytes_length]
    omega)]
  simp only
  rw [buildEach_eq (fun item b => buildRecord_eq item) _ _ (by
    simp only [DnsBuilder.put_pos, DnsBuilder.put_buf_length,
      headerBytes_length]
    omega)]
  simp (disch :=
      (simp only [DnsBuilder.put_pos, DnsBuilder.put_buf_length,
        List.length_append, headerBytes_length]; omega)) only
    [DnsBuilder.put_put, MessageSpec.itemBytes, Bool.and_self,
      List.append_assoc]

/-! ## The parser run -/

theorem byteAt_append_right
    (before after : Bytes) (index : Nat) :
    byteAt (before ++ after) (before.length + index) =
      byteAt after index := by
  simp [byteAt, List.getElem?_append_right]

@[simp]
theorem byteAt_cons_zero (head : UInt8) (tail : Bytes) :
    byteAt (head :: tail) 0 = .ok head :=
  rfl

@[simp]
theorem byteAt_cons_succ (head : UInt8) (tail : Bytes) (index : Nat) :
    byteAt (head :: tail) (index + 1) = byteAt tail index :=
  rfl

theorem readU16_append_right
    (before after : Bytes) (index : Nat) :
    readU16 (before ++ after) (before.length + index) =
      readU16 after index := by
  simp only [readU16, Nat.add_assoc, byteAt_append_right]

theorem readU32_append_right
    (before after : Bytes) (index : Nat) :
    readU32 (before ++ after) (before.length + index) =
      readU32 after index := by
  simp only [readU32, Nat.add_assoc, byteAt_append_right]

/-- The reader inverts the encoding of a question in any context. -/
theorem readQuestion_encode
    (before after : Bytes) (question : QuestionSpec) :
    readQuestion (before ++ (question.encode ++ after)) before.length =
      .ok (question.parsed, before.length + question.encode.length) := by
  have name :=
    readName_legal question.name before
      (bytes16 question.qtype ++ (bytes16 question.qclass ++ after))
  have shape :
      before ++ (question.encode ++ after) =
        before ++ (question.name.encode ++
          (bytes16 question.qtype ++ (bytes16 question.qclass ++ after))) := by
    simp [QuestionSpec.encode]
  have size :
      question.encode.length = question.name.encode.length + 4 := by
    simp [QuestionSpec.encode]
  have long :
      ¬ (before ++ (question.encode ++ after)).length <
        before.length + question.name.encode.length + 4 := by
    simp only [List.length_append, size]
    omega
  have fields (index : Nat) :
      readU16 (before ++ (question.encode ++ after))
          (before.length + question.name.encode.length + index) =
        readU16 (bytes16 question.qtype ++
          (bytes16 question.qclass ++ after)) index := by
    rw [shape, ← List.append_assoc, ← List.length_append,
      readU16_append_right]
  have qtype := fields 0
  have qclass := fields 2
  rw [← shape] at name
  rw [readQuestion]
  rw [name]
  simp only [bind, Except.bind, pure, Except.pure]
  rw [if_neg long, ← Nat.add_zero (before.length + _), qtype]
  simp only [Nat.add_zero]
  rw [qclass]
  simp [readU16, bytes16, bind, Except.bind, pure, Except.pure,
    QuestionSpec.parsed, size, Nat.add_assoc]

theorem readRr_encode
    (before after : Bytes) (record : RecordSpec) :
    readRr (before ++ (record.encode ++ after)) before.length =
      .ok (record.parsedAt before.length,
        before.length + record.encode.length) := by
  have name :=
    readName_legal record.name before
      (record.fixedBytes ++ (record.rdata ++ after))
  have shape :
      before ++ (record.encode ++ after) =
        before ++ (record.name.encode ++
          (record.fixedBytes ++ (record.rdata ++ after))) := by
    simp [RecordSpec.encode]
  have size :
      record.encode.length =
        record.name.encode.length + 10 + record.rdata.length := by
    simp only [RecordSpec.encode, List.length_append,
      RecordSpec.fixedBytes_length]
    omega
  have announced := record.rdlength_toNat
  have long :
      ¬ (before ++ (record.encode ++ after)).length <
        before.length + record.name.encode.length + 10 := by
    simp only [List.length_append, size]
    omega
  have longer :
      ¬ (before ++ (record.encode ++ after)).length <
        before.length + record.name.encode.length + 10 +
          record.rdlength.toNat := by
    simp only [List.length_append, size]
    omega
  have fields16 (index : Nat) :
      readU16 (before ++ (record.encode ++ after))
          (before.length + record.name.encode.length + index) =
        readU16 (record.fixedBytes ++ (record.rdata ++ after)) index := by
    rw [shape, ← List.append_assoc, ← List.length_append,
      readU16_append_right]
  have fields32 (index : Nat) :
      readU32 (before ++ (record.encode ++ after))
          (before.length + record.name.encode.length + index) =
        readU32 (record.fixedBytes ++ (record.rdata ++ after)) index := by
    rw [shape, ← List.append_assoc, ← List.length_append,
      readU32_append_right]
  have type := fields16 0
  have rrclass := fields16 2
  have ttl := fields32 4
  have rdlength := fields16 8
  simp only [Nat.add_zero] at type
  simp only [RecordSpec.fixedBytes, bytes16, bytes32, readU16, readU32,
    List.cons_append, List.nil_append, byteAt_cons_zero,
    byteAt_cons_succ, bind, Except.bind, pure, Except.pure,
    word16_bytes16, word32_bytes32] at type rrclass ttl rdlength
  rw [← shape] at name
  rw [readRr]
  rw [name]
  simp only [bind, Except.bind, pure, Except.pure]
  rw [if_neg long]
  simp only [readU16, readU32, bind, Except.bind, pure, Except.pure]
  rw [type, rrclass, ttl, rdlength]
  simp only
  rw [if_neg longer]
  simp only [RecordSpec.parsedAt, size, announced, Nat.add_assoc]

theorem readHeader_headerBytes
    (id flags qdcount ancount nscount arcount : UInt16) (after : Bytes) :
    readHeader
        (headerBytes id flags qdcount ancount nscount arcount ++ after) =
      .ok { id, flags, qdcount, ancount, nscount, arcount } := by
  simp [readHeader, headerBytes, bytes16, readU16, bind, Except.bind,
    pure, Except.pure]

/-- The RDATA pointer of a record read back covers the built RDATA. -/
theorem view_parsedAt
    (before after : Bytes) (record : RecordSpec) :
    (record.parsedAt before.length).view
        (before ++ (record.encode ++ after)) =
      record.view := by
  have shape :
      before ++ (record.encode ++ after) =
        (before ++ (record.name.encode ++ record.fixedBytes)) ++
          (record.rdata ++ after) := by
    simp [RecordSpec.encode]
  have start :
      (before ++ (record.name.encode ++ record.fixedBytes)).length =
        before.length + record.name.encode.length + 10 := by
    simp only [List.length_append, RecordSpec.fixedBytes_length]
    omega
  have data :
      (record.parsedAt before.length).rdataBytes
          (before ++ (record.encode ++ after)) =
        record.rdata := by
    simp only [DnsRr.rdataBytes, RecordSpec.parsedAt]
    rw [shape, List.drop_left' start, record.rdlength_toNat,
      List.take_left' rfl]
  simp only [DnsRr.view, data]
  rfl

/-- The message that the parser is to give: the records of each section stand
behind those of the one before. -/
def MessageSpec.parsed (message : MessageSpec) : DnsMessage :=
  let answersAt :=
    12 + (message.questions.flatMap QuestionSpec.encode).length
  let authoritiesAt :=
    answersAt + (message.answers.flatMap RecordSpec.encode).length
  let additionalsAt :=
    authoritiesAt + (message.authorities.flatMap RecordSpec.encode).length
  { header := message.header
    questions := message.questions.map QuestionSpec.parsed
    answers :=
      layout RecordSpec.encode RecordSpec.parsedAt answersAt message.answers
    authorities :=
      layout RecordSpec.encode RecordSpec.parsedAt authoritiesAt
        message.authorities
    additionals :=
      layout RecordSpec.encode RecordSpec.parsedAt additionalsAt
        message.additionals }

theorem layout_question (start : Nat) (questions : List QuestionSpec) :
    layout QuestionSpec.encode (fun _ => QuestionSpec.parsed) start
        questions =
      questions.map QuestionSpec.parsed := by
  induction questions generalizing start with
  | nil => rfl
  | cons question questions inductionHypothesis =>
      simp only [layout, List.map_cons, inductionHypothesis]

theorem toNat_toUInt16_of_le {count : Nat} (fits : count ≤ 65535) :
    count.toUInt16.toNat = count := by
  simp only [Nat.toUInt16, UInt16.toNat_ofNat']
  omega

def MessageSpec.bytes (message : MessageSpec) : Bytes :=
  headerBytes message.header.id message.header.flags
      message.header.qdcount message.header.ancount
      message.header.nscount message.header.arcount ++
    message.itemBytes

namespace MessageSpec

def headBytes (message : MessageSpec) : Bytes :=
  headerBytes message.header.id message.header.flags
    message.header.qdcount message.header.ancount
    message.header.nscount message.header.arcount

abbrev questionBytes (message : MessageSpec) : Bytes :=
  message.questions.flatMap QuestionSpec.encode

abbrev answerBytes (message : MessageSpec) : Bytes :=
  message.answers.flatMap RecordSpec.encode

abbrev authorityBytes (message : MessageSpec) : Bytes :=
  message.authorities.flatMap RecordSpec.encode

abbrev additionalBytes (message : MessageSpec) : Bytes :=
  message.additionals.flatMap RecordSpec.encode

theorem headBytes_length (message : MessageSpec) :
    message.headBytes.length = 12 :=
  headerBytes_length _ _ _ _ _ _

/-! Each section stands between what was written before and after it. -/

theorem bytes_at_questions (message : MessageSpec) :
    message.headBytes ++
        (message.questionBytes ++
          (message.answerBytes ++
            (message.authorityBytes ++ message.additionalBytes))) =
      message.bytes :=
  rfl

theorem bytes_at_answers (message : MessageSpec) :
    message.headBytes ++ message.questionBytes ++
        (message.answerBytes ++
          (message.authorityBytes ++ message.additionalBytes)) =
      message.bytes := by
  rw [← bytes_at_questions, List.append_assoc]

theorem bytes_at_authorities (message : MessageSpec) :
    message.headBytes ++ message.questionBytes ++ message.answerBytes ++
        (message.authorityBytes ++ message.additionalBytes) =
      message.bytes := by
  rw [← bytes_at_answers, List.append_assoc]

theorem bytes_at_additionals (message : MessageSpec) :
    message.headBytes ++ message.questionBytes ++ message.answerBytes ++
        message.authorityBytes ++ (message.additionalBytes ++ []) =
      message.bytes := by
  rw [← bytes_at_authorities, List.append_nil, List.append_assoc]

end MessageSpec

/-- The packet parses to the message, and no byte is left behind it. -/
structure ParsesWhole (buf : Bytes) (msg : DnsMessage)
    (answersAt authoritiesAt additionalsAt : Nat) : Prop where
  header : readHeader buf = .ok msg.header
  questions :
    readMany (readQuestion buf) msg.header.qdcount.toNat 12 =
      .ok (msg.questions, answersAt)
  answers :
    readMany (readRr buf) msg.header.ancount.toNat answersAt =
      .ok (msg.answers, authoritiesAt)
  authorities :
    readMany (readRr buf) msg.header.nscount.toNat authoritiesAt =
      .ok (msg.authorities, additionalsAt)
  additionals :
    readMany (readRr buf) msg.header.arcount.toNat additionalsAt =
      .ok (msg.additionals, buf.length)

theorem parsesWhole_bytes (message : MessageSpec) :
    ParsesWhole message.bytes message.parsed
      (12 + message.questionBytes.length)
      (12 + message.questionBytes.length + message.answerBytes.length)
      (12 + message.questionBytes.length + message.answerBytes.length +
        message.authorityBytes.length) := by
  have headLength := message.headBytes_length
  have whole :
      message.bytes.length =
        12 + message.questionBytes.length + message.answerBytes.length +
          message.authorityBytes.length + message.additionalBytes.length := by
    rw [← message.bytes_at_additionals]
    simp only [List.length_append, headLength, List.length_nil]
    omega
  have readsQuestions :=
    readMany_flatMap QuestionSpec.encode (fun _ => QuestionSpec.parsed)
      readQuestion_encode message.questions message.headBytes
      (message.answerBytes ++
        (message.authorityBytes ++ message.additionalBytes))
  have readsAnswers :=
    readMany_flatMap RecordSpec.encode RecordSpec.parsedAt readRr_encode
      message.answers (message.headBytes ++ message.questionBytes)
      (message.authorityBytes ++ message.additionalBytes)
  have readsAuthorities :=
    readMany_flatMap RecordSpec.encode RecordSpec.parsedAt readRr_encode
      message.authorities
      (message.headBytes ++ message.questionBytes ++ message.answerBytes)
      message.additionalBytes
  have readsAdditionals :=
    readMany_flatMap RecordSpec.encode RecordSpec.parsedAt readRr_encode
      message.additionals
      (message.headBytes ++ message.questionBytes ++
        message.answerBytes ++ message.authorityBytes) []
  rw [message.bytes_at_questions, layout_question] at readsQuestions
  rw [message.bytes_at_answers] at readsAnswers
  rw [message.bytes_at_authorities] at readsAuthorities
  rw [message.bytes_at_additionals] at readsAdditionals
  simp only [headLength] at readsQuestions
  simp only [List.length_append, headLength] at readsAnswers
  simp only [List.length_append, headLength] at readsAuthorities
  simp only [List.length_append, headLength] at readsAdditionals
  rw [← toNat_toUInt16_of_le message.questionsFit] at readsQuestions
  rw [← toNat_toUInt16_of_le message.answersFit] at readsAnswers
  rw [← toNat_toUInt16_of_le message.authoritiesFit] at readsAuthorities
  rw [← toNat_toUInt16_of_le message.additionalsFit, ← whole]
    at readsAdditionals
  exact
    { header := readHeader_headerBytes _ _ _ _ _ _ _
      questions := readsQuestions
      answers := readsAnswers
      authorities := readsAuthorities
      additionals := readsAdditionals }

theorem dnsParseMessage_bytes (message : MessageSpec) :
    dnsParseMessage message.bytes = .ok message.parsed := by
  have long : ¬ message.bytes.length < 12 := by
    simp [MessageSpec.bytes]
  have whole := parsesWhole_bytes message
  exact
    dnsParseMessage_of_reads (Nat.not_lt.mp long) whole.header
      whole.questions whole.answers whole.authorities whole.additionals

theorem views_layout
    (records : List RecordSpec) (before after : Bytes) :
    (layout RecordSpec.encode RecordSpec.parsedAt before.length
        records).map
        (DnsRr.view
          (before ++ (records.flatMap RecordSpec.encode ++ after))) =
      records.map RecordSpec.view :=
  map_layout RecordSpec.encode RecordSpec.parsedAt view_parsedAt records
    before after

/-- Build, then parse, is the identity: with a buffer of the encoded size every
call of the run returns zero, no byte lands outside the buffer, and parsing
exactly the bytes produced gives the header, the questions and the records
back. -/
theorem buildMessage_then_parse
    (message : MessageSpec) (buffer : Bytes)
    (room : message.encodedSize ≤ buffer.length) :
    let built := buildMessage (dnsBuilderInit buffer) message
    built.1 = true ∧ built.2.stray = false ∧
      ∃ msg,
        dnsParseMessage built.2.written = .ok msg ∧
          msg.header = message.header ∧
            msg.questions = message.questions.map QuestionSpec.parsed ∧
              msg.answers.map (DnsRr.view built.2.written) =
                  message.answers.map RecordSpec.view ∧
                msg.authorities.map (DnsRr.view built.2.written) =
                    message.authorities.map RecordSpec.view ∧
                  msg.additionals.map (DnsRr.view built.2.written) =
                    message.additionals.map RecordSpec.view := by
  have headLength := message.headBytes_length
  have start : (dnsBuilderInit buffer).pos = 0 := rfl
  have size : (dnsBuilderInit buffer).buf.length = buffer.length := rfl
  have length : message.bytes.length = message.encodedSize := by
    simp [MessageSpec.bytes, MessageSpec.encodedSize]
  have fits :
      (dnsBuilderInit buffer).pos + message.bytes.length ≤
        (dnsBuilderInit buffer).buf.length := by
    omega
  have run :
      buildMessage (dnsBuilderInit buffer) message =
        (true, (dnsBuilderInit buffer).put message.bytes) :=
    buildMessage_eq message (by omega)
  have produced :
      ((dnsBuilderInit buffer).put message.bytes).written =
        message.bytes := by
    rw [DnsBuilder.written_put fits]
    rfl
  rw [run]
  simp only [produced, true_and]
  refine ⟨?_, message.parsed, dnsParseMessage_bytes message, rfl, rfl,
    ?_, ?_, ?_⟩
  · rw [DnsBuilder.put_stray_of_le fits]
    rfl
  · have views :=
      views_layout message.answers
        (message.headBytes ++ message.questionBytes)
        (message.authorityBytes ++ message.additionalBytes)
    rw [message.bytes_at_answers] at views
    simp only [List.length_append, headLength] at views
    exact views
  · have views :=
      views_layout message.authorities
        (message.headBytes ++ message.questionBytes ++ message.answerBytes)
        message.additionalBytes
    rw [message.bytes_at_authorities] at views
    simp only [List.length_append, headLength] at views
    exact views
  · have views :=
      views_layout message.additionals
        (message.headBytes ++ message.questionBytes ++
          message.answerBytes ++ message.authorityBytes) []
    rw [message.bytes_at_additionals] at views
    simp only [List.length_append, headLength] at views
    exact views

def googleCom : LegalName where
  labels := [[103, 111, 111, 103, 108, 101], [99, 111, 109]]
  legal := by
    intro label member
    simp only [List.mem_cons, List.not_mem_nil, or_false] at member
    rcases member with rfl | rfl
    · exact ⟨by decide, by decide, by simp, by simp⟩
    · exact ⟨by decide, by decide, by simp, by simp⟩
  nonempty := by decide
  count := by decide
  fits := by decide

/-- The message of the repository's own builder test: one question and one
address record. -/
def googleComMessage : MessageSpec where
  id := 0x1234
  flags := 0x8180
  questions := [⟨googleCom, 1, 1⟩]
  answers := [⟨googleCom, 1, 1, 300, [1, 2, 3, 4], by decide⟩]
  authorities := []
  additionals := []
  questionsFit := by decide
  answersFit := by decide
  authoritiesFit := by decide
  additionalsFit := by decide

theorem buildMessage_then_parse_googleCom :
    let built :=
      buildMessage (dnsBuilderInit (List.replicate 512 0)) googleComMessage
    built.1 = true ∧ built.2.stray = false ∧
      ∃ msg,
        dnsParseMessage built.2.written = .ok msg ∧
          msg.header = googleComMessage.header ∧
            msg.questions =
                googleComMessage.questions.map QuestionSpec.parsed ∧
              msg.answers.map (DnsRr.view built.2.written) =
                  googleComMessage.answers.map RecordSpec.view ∧
                msg.authorities.map (DnsRr.view built.2.written) =
                    googleComMessage.authorities.map RecordSpec.view ∧
                  msg.additionals.map (DnsRr.view built.2.written) =
                    googleComMessage.additionals.map RecordSpec.view :=
  buildMessage_then_parse googleComMessage (List.replicate 512 0) (by
    rw [List.length_replicate]
    decide)

end DnsFirewall
