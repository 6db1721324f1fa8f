import DnsFirewall.Resolver.Model
import DnsFirewall.Wire.NameDecoder
import DnsFirewall.Wire.Rebuild

/-!
# Queries sent upstream, and replies that repeat them

The packet of a query with a legal name is the header and the question: the
name of the OPT record is empty, so nothing of that record is written.  The
packet asks for that name and reads back as that query.  A
reply that repeats the question and puts one record behind it, whose owner is
a pointer to the name of the question, parses to that record or not at all,
whatever the ID.
-/

namespace DnsFirewall

open CString Cursor BigEndian

theorem bytes16_word16 (high low : UInt8) :
    bytes16 (word16 high low) = [high, low] := by
  have highBound : high.toNat < 256 := high.toNat_lt
  have lowBound : low.toNat < 256 := low.toNat_lt
  have value := word16_toNat high low
  have first : (word16 high low >>> 8).toUInt8 = high := by
    apply UInt8.toNat_inj.mp
    simp only [UInt16.toNat_toUInt8, UInt16.toNat_shiftRight,
      Nat.shiftRight_eq_div_pow, UInt16.reduceToNat, Nat.reduceMod,
      Nat.reducePow, value]
    omega
  have second : (word16 high low).toUInt8 = low := by
    apply UInt8.toNat_inj.mp
    simp only [UInt16.toNat_toUInt8, value]
    omega
  rw [bytes16, first, second]

/-! ## The packet of a query -/

theorem dnsBuildQuestion_of_content
    (b : DnsBuilder) {qname other : Bytes}
    (same : content qname = content other) (qtype qclass : UInt16) :
    dnsBuildQuestion b qname qtype qclass =
      dnsBuildQuestion b other qtype qclass := by
  unfold dnsBuildQuestion writeNameUncompressed
  rw [same]

/-- The empty name is not written. -/
theorem dnsBuildRr_of_empty
    (b : DnsBuilder) (type rrclass : UInt16) (ttl : UInt32) (rdata : Bytes)
    (rdlength : UInt16) :
    dnsBuildRr b [] type rrclass ttl rdata rdlength = (false, b) := by
  have noName : writeNameUncompressed b [] = (false, b) := by
    rw [writeNameUncompressed]
    exact if_pos rfl
  rw [dnsBuildRr]
  rw [noName]

theorem content_text (name : LegalName) : content name.text = name.text :=
  content_eq_self (rebuildable_text name).noNul

theorem queryPacket_of_legal
    (id : UInt16) {question : DnsQuestion} {name : LegalName}
    (isName : content question.qname = name.text) :
    queryPacket id question =
      headerBytes id 0 1 0 0 0 ++
        (QuestionSpec.mk name question.qtype question.qclass).encode := by
  have size :
      (QuestionSpec.mk name question.qtype question.qclass).encode.length ≤
        259 := by
    have length := name.encode_length
    have short : name.text.length ≤ 254 := name.fits
    simp only [QuestionSpec.encode, List.length_append, bytes16_length]
    omega
  have same : content question.qname = content name.text := by
    rw [isName, content_text]
  have empty :
      (dnsBuilderInit (List.replicate ednsSize 0)).buf.length = 1232 := by
    rw [dnsBuilderInit]
    exact List.length_replicate
  have start : (dnsBuilderInit (List.replicate ednsSize 0)).pos = 0 := rfl
  have nothing :
      (dnsBuilderInit (List.replicate ednsSize 0)).written = [] := rfl
  unfold queryPacket
  generalize dnsBuilderInit (List.replicate ednsSize 0) = b
    at empty start nothing
  have headerRoom : b.pos + 12 ≤ b.buf.length := by omega
  have headed := dnsBuildResponseHeader_of_le id 0 1 0 0 0 headerRoom
  have room :
      (b.put (headerBytes id 0 1 0 0 0)).pos +
          (QuestionSpec.mk name question.qtype
            question.qclass).encode.length ≤
        (b.put (headerBytes id 0 1 0 0 0)).buf.length := by
    rw [DnsBuilder.put_pos, DnsBuilder.put_buf_length,
      headerBytes_length]
    omega
  have built := buildQuestion_eq ⟨name, question.qtype, question.qclass⟩ room
  unfold buildQuestion at built
  simp only at built
  simp only [headed, dnsBuildQuestion_of_content _ same, built,
    dnsBuildRr_of_empty]
  rw [DnsBuilder.written_put room, DnsBuilder.written_put (by
    rw [headerBytes_length]
    exact headerRoom), nothing, List.nil_append]

/-- The packet has the question as its only one. -/
def AsksFor (packet : Bytes) (question : DnsQuestion) : Prop :=
  ∃ message,
    dnsParseMessage packet = .ok message ∧ message.questions = [question]

/-- The packet of a query with a legal name reads back as that query. -/
theorem dnsParseMessage_queryPacket
    (id : UInt16) {question : DnsQuestion} {name : LegalName}
    (isName : content question.qname = name.text) :
    dnsParseMessage (queryPacket id question) =
      .ok
        ⟨⟨id, 0, 1, 0, 0, 0⟩,
          [⟨name.text, question.qtype, question.qclass⟩], [], [], []⟩ := by
  let message : MessageSpec :=
    ⟨id, 0, [⟨name, question.qtype, question.qclass⟩], [], [], [],
      by simp, by simp, by simp, by simp⟩
  have bytes : queryPacket id question = message.bytes := by
    rw [queryPacket_of_legal id isName]
    simp [message, MessageSpec.bytes, MessageSpec.itemBytes,
      MessageSpec.header]
  rw [bytes, dnsParseMessage_bytes]
  rfl

theorem asksFor_queryPacket
    (id : UInt16) {question : DnsQuestion} {name : LegalName}
    (isName : content question.qname = name.text) :
    AsksFor (queryPacket id question)
      ⟨name.text, question.qtype, question.qclass⟩ :=
  ⟨_, dnsParseMessage_queryPacket id isName, rfl⟩

/-- The name that the question of a packet asks for. -/
def AsksName (packet name : Bytes) : Prop :=
  ∃ labels, Decodes packet 12 labels ∧ name = spelled (nameText labels)

/-- A query with a legal name asks for that name only. -/
theorem asksName_queryPacket
    {id : UInt16} {question : DnsQuestion} {legal : LegalName} {name : Bytes}
    (isName : content question.qname = legal.text)
    (asks : AsksName (queryPacket id question) name) :
    name = legal.text := by
  obtain ⟨labels, decodes, rfl⟩ := asks
  have read :=
    readName_legal legal (headerBytes id 0 1 0 0 0)
      (bytes16 question.qtype ++ bytes16 question.qclass)
  rw [headerBytes_length] at read
  obtain ⟨others, alsoDecodes, text, _⟩ := decodes_of_readName read
  rw [queryPacket_of_legal id isName, QuestionSpec.encode] at decodes
  rw [alsoDecodes.unique decodes, text]

/-! ## Replies to it -/

/-- The fields of a record with an owner in front of them. -/
structure EchoedRecord where
  type : UInt16
  rrclass : UInt16
  ttl : UInt32
  rdlength : UInt16
  rdata : Bytes

/-- The record behind a pointer to offset 12. -/
def EchoedRecord.bytes (record : EchoedRecord) : Bytes :=
  [0xC0, 0x0C] ++
    (bytes16 record.type ++ (bytes16 record.rrclass ++
      (bytes32 record.ttl ++ (bytes16 record.rdlength ++ record.rdata))))

/-- A reply that repeats the question and puts the record behind it. -/
def echoedReply (id flags : UInt16) (question : QuestionSpec)
    (record : EchoedRecord) : Bytes :=
  headerBytes id flags 1 1 0 0 ++ (question.encode ++ record.bytes)

theorem readRr_fields
    {pkt : Bytes} {start stop : Nat} {rr : DnsRr}
    (read : readRr pkt start = .ok (rr, stop)) :
    ∃ middle,
      readName pkt dnsMaxNameLen start = .ok (rr.name, middle) ∧
        readU16 pkt middle = .ok rr.type ∧
          readU16 pkt (middle + 8) = .ok rr.rdlength := by
  unfold readRr at read
  obtain ⟨⟨name, middle⟩, readsName, rest⟩ := bind_eq_ok.mp read
  simp only at rest
  split at rest
  · cases rest
  · obtain ⟨type, readsType, more⟩ := bind_eq_ok.mp rest
    obtain ⟨rrclass, -, more⟩ := bind_eq_ok.mp more
    obtain ⟨ttl, -, more⟩ := bind_eq_ok.mp more
    obtain ⟨rdlength, readsLength, more⟩ := bind_eq_ok.mp more
    split at more
    · cases more
    · cases more
      exact ⟨middle, readsName, readsType, readsLength⟩

/-- What a name that starts with a pointer leaves behind it. -/
theorem stop_of_pointer
    {pkt : Bytes} {outLen offset stop : Nat} {name : Bytes}
    (read : readName pkt outLen offset = .ok (name, stop))
    (pointer : pkt[offset]? = some 0xC0) : stop = offset + 2 := by
  obtain ⟨labels, _, _, inPlace⟩ := decodes_of_readName read
  cases inPlace with
  | root zero =>
      rw [pointer] at zero
      cases zero
  | label there _ short _ =>
      rw [pointer] at there
      cases there
      exact absurd short (by decide)
  | pointer _ _ => rfl

theorem fields_of_echoedRecord
    {before : Bytes} {record : EchoedRecord} {rr : DnsRr} {stop : Nat}
    (read :
      readRr (before ++ record.bytes) before.length = .ok (rr, stop)) :
    rr.type = record.type ∧ rr.rdlength = record.rdlength := by
  obtain ⟨middle, readsName, readsType, readsLength⟩ := readRr_fields read
  have pointer :
      (before ++ record.bytes)[before.length]? = some 0xC0 := by
    rw [List.getElem?_append_right (Nat.le_refl _), Nat.sub_self]
    rfl
  have behind := stop_of_pointer readsName pointer
  rw [behind, readU16_append_right] at readsType
  rw [behind, Nat.add_assoc, readU16_append_right] at readsLength
  constructor
  · simp only [EchoedRecord.bytes, bytes16, readU16, List.cons_append,
      List.nil_append, byteAt_cons_succ, byteAt_cons_zero, bind,
      Except.bind, pure, Except.pure, word16_bytes16] at readsType
    exact (Except.ok.inj readsType).symm
  · simp only [EchoedRecord.bytes, bytes16, bytes32, readU16,
      List.cons_append, List.nil_append, byteAt_cons_succ,
      byteAt_cons_zero, bind, Except.bind, pure, Except.pure,
      word16_bytes16] at readsLength
    exact (Except.ok.inj readsLength).symm

/-- A reply that repeats the question has, if it parses, that one record as
its answers. -/
theorem answers_of_echoedReply
    {id flags : UInt16} {question : QuestionSpec} {record : EchoedRecord}
    {message : DnsMessage}
    (parsed :
      dnsParseMessage (echoedReply id flags question record) = .ok message) :
    ∃ rr, message.answers = [rr] ∧ rr.type = record.type ∧
      rr.rdlength = record.rdlength := by
  obtain ⟨_, readsHeader, answersAt, authoritiesAt, _, _, readsQuestions,
    readsAnswers, _⟩ := dnsParseMessage_eq_ok parsed
  have header : message.header = ⟨id, flags, 1, 1, 0, 0⟩ := by
    have alsoHeader :=
      readHeader_headerBytes id flags 1 1 0 0
        (question.encode ++ record.bytes)
    unfold echoedReply at readsHeader
    rw [alsoHeader] at readsHeader
    exact (Except.ok.inj readsHeader).symm
  have one : (1 : UInt16).toNat = 0 + 1 := rfl
  rw [header] at readsQuestions readsAnswers
  simp only [one] at readsQuestions readsAnswers
  obtain ⟨_, questionStop, _, readsQuestion, noMore, _⟩ :=
    readMany_succ_eq_ok.mp readsQuestions
  cases noMore
  obtain ⟨rr, recordStop, rest, readsRecord, noRecords, answers⟩ :=
    readMany_succ_eq_ok.mp readsAnswers
  cases noRecords
  have front :=
    readQuestion_encode (headerBytes id flags 1 1 0 0) record.bytes question
  rw [headerBytes_length] at front
  unfold echoedReply at readsQuestion readsRecord
  rw [front] at readsQuestion
  cases readsQuestion
  have before :
      (headerBytes id flags 1 1 0 0 ++ question.encode).length =
        12 + question.encode.length := by
    rw [List.length_append, headerBytes_length]
  rw [← List.append_assoc, ← before] at readsRecord
  exact ⟨rr, answers, fields_of_echoedRecord readsRecord⟩

end DnsFirewall
