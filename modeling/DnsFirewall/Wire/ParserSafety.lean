import DnsFirewall.Wire.ReaderSpec

/-!
# The parser stays inside its buffer

`dns_parse_message` on an arbitrary buffer: it has no read outside the packet
and no write outside a name array, and a message it accepts is anchored in the
packet.  Its items tile the bytes behind the header in order, and the RDATA of
a record is the end of that record's own span.
-/

namespace DnsFirewall

open CString Cursor

/-- The bytes from `start` to `stop` are those of the given question. -/
def QuestionSpan (pkt : Bytes) : Nat → DnsQuestion → Nat → Prop :=
  Reads (readQuestion pkt)

/-- The bytes from `start` to `stop` are those of the given record, and its
RDATA pointer covers the last `rdlength` of them. -/
structure RecordSpan (pkt : Bytes) (start : Nat) (rr : DnsRr) (stop : Nat) :
    Prop where
  reads : readRr pkt start = .ok (rr, stop)
  inside : start < rr.rdata
  atEnd : rr.rdata + rr.rdlength.toNat = stop

/-- The sections of a message tile the packet behind the header. -/
def Anchored (pkt : Bytes) (msg : DnsMessage) : Prop :=
  ∃ answersAt authoritiesAt additionalsAt stop,
    Tiling (QuestionSpan pkt) 12 msg.questions answersAt ∧
      Tiling (RecordSpan pkt) answersAt msg.answers authoritiesAt ∧
        Tiling (RecordSpan pkt) authoritiesAt msg.authorities
            additionalsAt ∧
          Tiling (RecordSpan pkt) additionalsAt msg.additionals stop ∧
            stop ≤ pkt.length

/-- The four sections hold as many items as the header in the first twelve
bytes of the packet announces. -/
structure CountsMatch (pkt : Bytes) (msg : DnsMessage) : Prop where
  header : readHeader pkt = .ok msg.header
  questions : msg.questions.length = msg.header.qdcount.toNat
  answers : msg.answers.length = msg.header.ancount.toNat
  authorities : msg.authorities.length = msg.header.nscount.toNat
  additionals : msg.additionals.length = msg.header.arcount.toNat

theorem readQuestion_progress
    {pkt : Bytes} {start stop : Nat} {question : DnsQuestion}
    (read : readQuestion pkt start = .ok (question, stop)) :
    start < stop ∧ stop ≤ pkt.length := by
  rcases readQuestion_cases pkt start with
    rejected | ⟨other, otherStop, otherRead, facts⟩
  · rw [rejected] at read
    cases read
  · rw [otherRead] at read
    cases read
    exact facts

theorem recordSpan_of_readRr
    {pkt : Bytes} {start stop : Nat} {rr : DnsRr}
    (read : readRr pkt start = .ok (rr, stop)) :
    RecordSpan pkt start rr stop ∧ start < stop ∧ stop ≤ pkt.length := by
  rcases readRr_cases pkt start with
    rejected | ⟨other, otherStop, otherRead, inside, atEnd, bounded⟩
  · rw [rejected] at read
    cases read
  · rw [otherRead] at read
    cases read
    exact ⟨⟨otherRead, inside, atEnd⟩, by omega, bounded⟩

theorem recordTiling_of_readMany
    {pkt : Bytes} {count start stop : Nat} {items : List DnsRr}
    (read : readMany (readRr pkt) count start = .ok (items, stop)) :
    items.length = count ∧ Tiling (RecordSpan pkt) start items stop := by
  obtain ⟨length, tiling⟩ :=
    tiling_of_readMany
      (fun _ _ _ single => (recordSpan_of_readRr single).2.1) read
  exact ⟨length,
    tiling.mono fun _ _ _ single => (recordSpan_of_readRr single).1⟩

theorem stop_le_of_recordTiling
    {pkt : Bytes} {start stop : Nat} {items : List DnsRr}
    (tiling : Tiling (RecordSpan pkt) start items stop)
    (inside : start ≤ pkt.length) :
    stop ≤ pkt.length := by
  induction tiling with
  | nil start =>
      exact inside
  | cons span _ _ inductionHypothesis =>
      exact inductionHypothesis (recordSpan_of_readRr span.reads).2.2

theorem stop_le_of_questionTiling
    {pkt : Bytes} {start stop : Nat} {items : List DnsQuestion}
    (tiling : Tiling (QuestionSpan pkt) start items stop)
    (inside : start ≤ pkt.length) :
    stop ≤ pkt.length := by
  induction tiling with
  | nil start =>
      exact inside
  | cons span _ _ inductionHypothesis =>
      exact inductionHypothesis (readQuestion_progress span).2

/-- The five reads behind an accepted message. -/
theorem dnsParseMessage_eq_ok
    {buf : Bytes} {msg : DnsMessage}
    (parsed : dnsParseMessage buf = .ok msg) :
    12 ≤ buf.length ∧ readHeader buf = .ok msg.header ∧
      ∃ answersAt authoritiesAt additionalsAt stop,
        readMany (readQuestion buf) msg.header.qdcount.toNat 12 =
            .ok (msg.questions, answersAt) ∧
          readMany (readRr buf) msg.header.ancount.toNat answersAt =
              .ok (msg.answers, authoritiesAt) ∧
            readMany (readRr buf) msg.header.nscount.toNat authoritiesAt =
                .ok (msg.authorities, additionalsAt) ∧
              readMany (readRr buf) msg.header.arcount.toNat
                  additionalsAt =
                .ok (msg.additionals, stop) := by
  unfold dnsParseMessage at parsed
  by_cases short : buf.length < 12
  · rw [if_pos short] at parsed
    cases parsed
  rw [if_neg short] at parsed
  simp only [bind_eq_ok, pure, Except.pure, Prod.exists] at parsed
  obtain ⟨header, readsHeader, questions, answersAt, readsQuestions,
    answers, authoritiesAt, readsAnswers, authorities, additionalsAt,
    readsAuthorities, additionals, stop, readsAdditionals, same⟩ := parsed
  cases same
  exact ⟨by omega, readsHeader, answersAt, authoritiesAt, additionalsAt,
    stop, readsQuestions, readsAnswers, readsAuthorities, readsAdditionals⟩

theorem dnsParseMessage_of_reads
    {buf : Bytes} {msg : DnsMessage}
    {answersAt authoritiesAt additionalsAt stop : Nat}
    (long : 12 ≤ buf.length)
    (readsHeader : readHeader buf = .ok msg.header)
    (readsQuestions :
      readMany (readQuestion buf) msg.header.qdcount.toNat 12 =
        .ok (msg.questions, answersAt))
    (readsAnswers :
      readMany (readRr buf) msg.header.ancount.toNat answersAt =
        .ok (msg.answers, authoritiesAt))
    (readsAuthorities :
      readMany (readRr buf) msg.header.nscount.toNat authoritiesAt =
        .ok (msg.authorities, additionalsAt))
    (readsAdditionals :
      readMany (readRr buf) msg.header.arcount.toNat additionalsAt =
        .ok (msg.additionals, stop)) :
    dnsParseMessage buf = .ok msg := by
  rw [dnsParseMessage]
  rw [if_neg (Nat.not_lt.mpr long), readsHeader]
  simp only [bind, Except.bind, pure, Except.pure, readsQuestions,
    readsAnswers, readsAuthorities, readsAdditionals]

/-- A buffer has one message, so what holds of its messages holds of it. -/
theorem forall_parsed_iff
    {buf : Bytes} {msg : DnsMessage} {holds : DnsMessage → Prop}
    (parsed : dnsParseMessage buf = .ok msg) :
    (∀ other, dnsParseMessage buf = .ok other → holds other) ↔
      holds msg := by
  constructor
  · intro all
    exact all msg parsed
  · intro holdsMsg other alsoParsed
    rw [parsed] at alsoParsed
    cases alsoParsed
    exact holdsMsg

theorem forall_parsed_of_error
    {buf : Bytes} {failure : ReadError} {holds : DnsMessage → Prop}
    (parsed : dnsParseMessage buf = .error failure) :
    ∀ other, dnsParseMessage buf = .ok other → holds other := by
  intro other alsoParsed
  rw [parsed] at alsoParsed
  cases alsoParsed

/-- An accepted message has the announced counts and is anchored. -/
theorem anchored_of_dnsParseMessage
    {buf : Bytes} {msg : DnsMessage}
    (parsed : dnsParseMessage buf = .ok msg) :
    CountsMatch buf msg ∧ Anchored buf msg := by
  obtain ⟨long, readsHeader, answersAt, authoritiesAt, additionalsAt, stop,
    readsQuestions, readsAnswers, readsAuthorities, readsAdditionals⟩ :=
    dnsParseMessage_eq_ok parsed
  obtain ⟨questionCount, questionTiling⟩ :=
    tiling_of_readMany
      (fun _ _ _ single => (readQuestion_progress single).1) readsQuestions
  obtain ⟨answerCount, answerTiling⟩ :=
    recordTiling_of_readMany readsAnswers
  obtain ⟨authorityCount, authorityTiling⟩ :=
    recordTiling_of_readMany readsAuthorities
  obtain ⟨additionalCount, additionalTiling⟩ :=
    recordTiling_of_readMany readsAdditionals
  have answersInside :=
    stop_le_of_questionTiling questionTiling long
  have authoritiesInside :=
    stop_le_of_recordTiling answerTiling answersInside
  have additionalsInside :=
    stop_le_of_recordTiling authorityTiling authoritiesInside
  have stopInside :=
    stop_le_of_recordTiling additionalTiling additionalsInside
  exact
    ⟨⟨readsHeader, questionCount, answerCount, authorityCount,
      additionalCount⟩,
    answersAt, authoritiesAt, additionalsAt, stop, questionTiling,
    answerTiling, authorityTiling, additionalTiling, stopInside⟩

/-- Every question of an accepted message has been read from the packet. -/
theorem exists_readQuestion_of_mem
    {buf : Bytes} {msg : DnsMessage} {question : DnsQuestion}
    (parsed : dnsParseMessage buf = .ok msg)
    (member : question ∈ msg.questions) :
    ∃ left right, readQuestion buf left = .ok (question, right) := by
  obtain ⟨_, _, _, _, _, questions, _⟩ :=
    anchored_of_dnsParseMessage parsed
  obtain ⟨left, right, read, _⟩ := questions.span_of_mem member
  exact ⟨left, right, read⟩

/-- Every record of an accepted message has a span of its own. -/
theorem exists_recordSpan_of_mem
    {buf : Bytes} {msg : DnsMessage} {rr : DnsRr}
    (parsed : dnsParseMessage buf = .ok msg)
    (member : rr ∈ msg.answers ++ msg.authorities ++ msg.additionals) :
    ∃ left right, RecordSpan buf left rr right := by
  obtain ⟨_, _, _, _, _, _, answers, authorities, additionals, _⟩ :=
    anchored_of_dnsParseMessage parsed
  have inSection :
      ∀ {start stop : Nat} {items : List DnsRr},
        Tiling (RecordSpan buf) start items stop → rr ∈ items →
          ∃ left right, RecordSpan buf left rr right := by
    intro start stop items tiling inItems
    obtain ⟨left, right, span, _⟩ := tiling.span_of_mem inItems
    exact ⟨left, right, span⟩
  rcases List.mem_append.mp member with front | inAdditionals
  · rcases List.mem_append.mp front with inAnswers | inAuthorities
    · exact inSection answers inAnswers
    · exact inSection authorities inAuthorities
  · exact inSection additionals inAdditionals

theorem readMany_readRr_error
    {pkt : Bytes} {count start : Nat} {failure : ReadError}
    (failed : readMany (readRr pkt) count start = .error failure) :
    failure = .reject := by
  obtain ⟨offset, single⟩ := exists_error_of_readMany failed
  rcases readRr_cases pkt offset with rejected | ⟨_, _, read, _⟩
  · rw [rejected] at single
    cases single
    rfl
  · rw [read] at single
    cases single

theorem readMany_readQuestion_error
    {pkt : Bytes} {count start : Nat} {failure : ReadError}
    (failed : readMany (readQuestion pkt) count start = .error failure) :
    failure = .reject := by
  obtain ⟨offset, single⟩ := exists_error_of_readMany failed
  rcases readQuestion_cases pkt offset with rejected | ⟨_, _, read, _⟩
  · rw [rejected] at single
    cases single
    rfl
  · rw [read] at single
    cases single

/-- The only failure of the parser is its return value `-1`: none of its
accesses leaves the packet or a name array. -/
theorem dnsParseMessage_error
    {buf : Bytes} {failure : ReadError}
    (failed : dnsParseMessage buf = .error failure) :
    failure = .reject := by
  unfold dnsParseMessage at failed
  by_cases short : buf.length < 12
  · rw [if_pos short] at failed
    cases failed
    rfl
  rw [if_neg short] at failed
  obtain ⟨header, readsHeader⟩ :=
    exists_readHeader (show 12 ≤ buf.length by omega)
  simp only [readsHeader, bind_eq_error, pure, Except.pure, reduceCtorEq,
    Except.ok.injEq, exists_eq_left', false_or, Prod.exists, and_false,
    exists_false, or_false] at failed
  rcases failed with failed | ⟨_, _, _, failed | ⟨_, _, _, failed |
    ⟨_, _, _, failed⟩⟩⟩
  · exact readMany_readQuestion_error failed
  · exact readMany_readRr_error failed
  · exact readMany_readRr_error failed
  · exact readMany_readRr_error failed

/-- On every buffer the parser ends without an access outside the packet or a
name array, and what it accepts has the counts of the packet's own header and
is anchored in the packet. -/
theorem dnsParseMessage_safe (buf : Bytes) :
    dnsParseMessage buf ≠ .error .readOutside ∧
      dnsParseMessage buf ≠ .error .writeOutside ∧
        ∀ msg, dnsParseMessage buf = .ok msg →
          CountsMatch buf msg ∧ Anchored buf msg := by
  refine ⟨?_, ?_, fun _ parsed => anchored_of_dnsParseMessage parsed⟩
  · intro outside
    cases dnsParseMessage_error outside
  · intro outside
    cases dnsParseMessage_error outside

end DnsFirewall
