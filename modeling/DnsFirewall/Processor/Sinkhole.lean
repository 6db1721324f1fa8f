import DnsFirewall.Processor.Bans
import DnsFirewall.Wire.Rebuild

/-!
# The sinkhole packet

The packet announces every question of the query and one answer before they
are written, and the results of the builder are ignored.  What is announced is
there exactly when every name can be built again and all of it fits.
-/

namespace DnsFirewall

open CString Cursor BigEndian DnsBuilder

variable {F : Type}

/-- The packet parses to the questions of the query and one A record with the
address 0.0.0.0 for the first of them, to its last byte. -/
def CompleteSinkhole (query : DnsMessage) (first : DnsQuestion)
    (data : Bytes) : Prop :=
  ∃ msg rr answersAt authoritiesAt additionalsAt,
    dnsParseMessage data = .ok msg ∧
      ParsesWhole data msg answersAt authoritiesAt additionalsAt ∧
        msg.questions = query.questions ∧ msg.answers = [rr] ∧
          rr.name = first.qname ∧ rr.type = dnsTypeA ∧
            rr.rdlength = 4 ∧ rr.rdataBytes data = [0, 0, 0, 0]

/-- What the questions take in the packet. -/
def questionsSize (questions : List DnsQuestion) : Nat :=
  (questions.map fun question => question.qname.length + 5).sum

/-- Every name can be built again, and the questions fit with the record for
the first of them. -/
structure SinkholeFits (query : DnsMessage) (first : DnsQuestion) :
    Prop where
  names :
    ∀ question, question ∈ query.questions → Rebuildable question.qname
  room :
    12 + questionsSize query.questions + (first.qname.length + 15) ≤ 512

/-- The builder behind the header. -/
def sinkholeRest (first : DnsQuestion) (b : DnsBuilder)
    (questions : List DnsQuestion) : DnsBuilder :=
  (dnsBuildRr
    (questions.foldl
      (fun b question =>
        (dnsBuildQuestion b question.qname question.qtype
          question.qclass).2)
      b)
    first.qname dnsTypeA dnsClassIn 300 [0, 0, 0, 0] 4).2

def sinkholeHeader (query : DnsMessage) : Bytes :=
  headerBytes query.header.id (htons (dnsQrResponse ||| dnsRcodeNoerror))
    query.questions.length.toUInt16 1 0 0

def sinkholeStart (query : DnsMessage) : DnsBuilder :=
  (dnsBuilderInit (List.replicate 512 0)).put (sinkholeHeader query)

theorem sinkholePacket_eq (query : DnsMessage) (first : DnsQuestion) :
    sinkholePacket query first =
      (sinkholeRest first (sinkholeStart query) query.questions).written := by
  have room :
      (dnsBuilderInit (List.replicate 512 0)).pos + 12 ≤
        (dnsBuilderInit (List.replicate 512 0)).buf.length := by
    rw [dnsBuilderInit, List.length_replicate]
    decide
  rw [sinkholePacket, sinkholeStart, sinkholeRest, sinkholeHeader]
  generalize dnsBuilderInit (List.replicate 512 0) = start at room ⊢
  simp only
  rw [dnsBuildResponseHeader_of_le _ _ _ _ _ _ room]

@[simp]
theorem length_sinkholeHeader (query : DnsMessage) :
    (sinkholeHeader query).length = 12 :=
  headerBytes_length _ _ _ _ _ _

theorem size_sinkholeStart (query : DnsMessage) :
    (sinkholeStart query).buf.length = 512 := by
  rw [sinkholeStart, put_buf_length]
  exact List.length_replicate

theorem appends_sinkholeStart (query : DnsMessage) :
    (dnsBuilderInit (List.replicate 512 0)).Appends (sinkholeHeader query)
      (sinkholeStart query) :=
  .put (by
    rw [length_sinkholeHeader, dnsBuilderInit, List.length_replicate]
    show 0 + 12 ≤ 512
    decide)

theorem pos_sinkholeStart (query : DnsMessage) :
    (sinkholeStart query).pos = 12 := by
  rw [(appends_sinkholeStart query).pos, length_sinkholeHeader,
    dnsBuilderInit]

theorem written_sinkholeStart (query : DnsMessage) :
    (sinkholeStart query).written = sinkholeHeader query := by
  have nothing : (dnsBuilderInit (List.replicate 512 0)).written = [] :=
    List.take_zero
  rw [(appends_sinkholeStart query).written, nothing, List.nil_append]

@[simp]
theorem sinkholeRest_cons
    (first : DnsQuestion) (b : DnsBuilder) (question : DnsQuestion)
    (questions : List DnsQuestion) :
    sinkholeRest first b (question :: questions) =
      sinkholeRest first
        (dnsBuildQuestion b question.qname question.qtype
          question.qclass).2
        questions :=
  rfl

/-- The root is written with one zero byte too many. -/
theorem sinkholeRest_root
    {b : DnsBuilder} (first : DnsQuestion) {question : DnsQuestion}
    (questions : List DnsQuestion) (isRoot : question.qname = [46])
    (room : b.pos + 6 ≤ b.buf.length) :
    sinkholeRest first b (question :: questions) =
      sinkholeRest first
        (b.put
          ([0, 0] ++ (bytes16 question.qtype ++ bytes16 question.qclass)))
        questions := by
  have built := dnsBuildQuestion_root room question.qtype question.qclass
  rw [sinkholeRest_cons, isRoot, built]

theorem appends_sinkholeRest
    (first : DnsQuestion) (questions : List DnsQuestion) {b : DnsBuilder}
    (inside : b.pos ≤ b.buf.length) :
    ∃ chunk,
      Aligned chunk ∧
        b.Appends chunk (sinkholeRest first b questions) := by
  induction questions generalizing b with
  | nil => exact appends_dnsBuildRr inside _ _ _ _ _ _
  | cons question questions inductionHypothesis =>
      obtain ⟨chunk, aligned, appends⟩ :=
        appends_dnsBuildQuestion inside question.qname question.qtype
          question.qclass
      obtain ⟨more, moreAligned, continues⟩ :=
        inductionHypothesis appends.inside
      exact
        ⟨chunk ++ more, aligned.append moreAligned,
          appends.trans continues⟩

/-! ## Zero bytes that are left over -/

theorem readRr_eq_ok
    {pkt : Bytes} {start stop : Nat} {rr : DnsRr}
    (read : readRr pkt start = .ok (rr, stop)) :
    ∃ middle,
      readName pkt dnsMaxNameLen start = .ok (rr.name, middle) ∧
        readU16 pkt middle = .ok rr.type ∧
          middle + 10 + rr.rdlength.toNat = stop ∧ stop ≤ pkt.length := by
  unfold readRr at read
  obtain ⟨⟨name, middle⟩, readsName, rest⟩ := bind_eq_ok.mp read
  simp only at rest
  split at rest
  · cases rest
  · obtain ⟨type, readsType, more⟩ := bind_eq_ok.mp rest
    obtain ⟨rrclass, -, more⟩ := bind_eq_ok.mp more
    obtain ⟨ttl, -, more⟩ := bind_eq_ok.mp more
    obtain ⟨rdlength, -, more⟩ := bind_eq_ok.mp more
    split at more
    · cases more
    · rename_i long
      cases more
      exact ⟨middle, readsName, readsType, rfl, Nat.not_lt.mp long⟩

theorem readName_zero (before more : Bytes) :
    readName (before ++ 0 :: more) dnsMaxNameLen before.length =
      .ok ([46], before.length + 1) := by
  have written := @putOut_of_le dnsMaxNameLen [46] [0] (by decide)
  rw [readName, readNamePasses]
  rw [readNameLoop, nameStep_root]
  simp [finishName, written, bind, Except.bind, pure, Except.pure]

theorem readU16_cons
    (before more : Bytes) (skipped high low : UInt8) :
    readU16 (before ++ skipped :: high :: low :: more)
        (before.length + 1) =
      .ok (word16 high low) := by
  rw [readU16_append_right]
  rfl

/-- No A record starts at three zero bytes. -/
theorem not_readRr_zeros
    {before more : Bytes} {rr : DnsRr} {stop : Nat}
    (read :
      readRr (before ++ 0 :: 0 :: 0 :: more) before.length =
        .ok (rr, stop))
    (isA : rr.type = dnsTypeA) : False := by
  obtain ⟨middle, readsName, readsType, -⟩ := readRr_eq_ok read
  rw [readName_zero] at readsName
  obtain ⟨-, rfl⟩ := Prod.mk.inj (Except.ok.inj readsName)
  rw [readU16_cons, isA] at readsType
  exact absurd (Except.ok.inj readsType) (by decide)

/-- A question at three zero bytes is the root with type 0. -/
theorem readQuestion_zeros
    {before more : Bytes} {question : DnsQuestion} {stop : Nat}
    (read :
      readQuestion (before ++ 0 :: 0 :: 0 :: more) before.length =
        .ok (question, stop)) :
    question.qname = [46] ∧ question.qtype = 0 ∧
      stop = before.length + 5 ∧
        readU16 (before ++ 0 :: 0 :: 0 :: more) (before.length + 3) =
          .ok question.qclass := by
  obtain ⟨middle, readsName, readsType, readsClass, isStop⟩ :=
    readQuestion_eq_ok read
  rw [readName_zero] at readsName
  obtain ⟨isRoot, rfl⟩ := Prod.mk.inj (Except.ok.inj readsName)
  rw [readU16_cons] at readsType
  have isType := Except.ok.inj readsType
  exact
    ⟨isRoot.symm, isType.symm.trans (by decide), isStop.symm, readsClass⟩

theorem readMany_start_le
    {data : Bytes} {count start stop : Nat} {items : List DnsQuestion}
    (read : readMany (readQuestion data) count start = .ok (items, stop)) :
    start ≤ stop :=
  (tiling_of_readMany
    (fun _ _ _ single => (readQuestion_progress single).1)
    read).2.start_le_stop

/-- A record with four bytes of RDATA takes fifteen bytes or more. -/
theorem readRr_size
    {data : Bytes} {start stop : Nat} {rr : DnsRr}
    (read : readRr data start = .ok (rr, stop)) (four : rr.rdlength = 4) :
    start + 15 ≤ data.length := by
  obtain ⟨middle, readsName, -, isStop, inside⟩ := readRr_eq_ok read
  have progress := (readName_ok two_le_dnsMaxNameLen readsName).2.1
  have length : rr.rdlength.toNat = 4 := by
    rw [four]
    rfl
  omega

theorem zeros_append_cons (zeros : Nat) (more : Bytes) :
    List.replicate zeros 0 ++ 0 :: more =
      (0 : UInt8) :: (List.replicate zeros 0 ++ more) := by
  induction zeros with
  | zero => rfl
  | succ zeros inductionHypothesis =>
      rw [List.replicate_succ, List.cons_append, inductionHypothesis,
        List.cons_append]

theorem zeros_append (zeros : Nat) (more : Bytes) :
    List.replicate (zeros + 1) 0 ++ 0 :: 0 :: more =
      (0 : UInt8) :: 0 :: 0 :: (List.replicate zeros 0 ++ more) := by
  rw [List.replicate_succ, List.cons_append, zeros_append_cons,
    zeros_append_cons]

theorem written_rest
    {b : DnsBuilder} (inside : b.pos ≤ b.buf.length)
    (first : DnsQuestion) (questions : List DnsQuestion) :
    ∃ chunk,
      Aligned chunk ∧
        (sinkholeRest first b questions).written = b.written ++ chunk ∧
          (b.written ++ chunk).length ≤ b.buf.length := by
  obtain ⟨chunk, aligned, appends⟩ :=
    appends_sinkholeRest first questions inside
  refine ⟨chunk, aligned, appends.written, ?_⟩
  have length := length_written appends.inside
  rw [← appends.written, length, ← appends.size]
  exact appends.inside

/-- A question that is read back as itself from zero bytes has type and class
0. -/
theorem readQuestion_zeros_self
    {before more : Bytes} {zeros : Nat} {question : DnsQuestion}
    {next : Nat}
    (read :
      readQuestion
          (before ++ 0 :: 0 :: 0 ::
            (List.replicate zeros 0 ++
              (bytes16 question.qtype ++ bytes16 question.qclass ++ more)))
          before.length =
        .ok (question, next)) :
    question.qtype = 0 ∧ question.qclass = 0 ∧
      next = before.length + 5 := by
  obtain ⟨-, noType, isNext, readsClass⟩ := readQuestion_zeros read
  have noBytes : bytes16 (0 : UInt16) = [0, 0] := by decide
  have moved :
      before ++ 0 :: 0 :: 0 ::
          (List.replicate zeros 0 ++
            ([0, 0] ++ bytes16 question.qclass ++ more)) =
        (before ++ [0, 0]) ++
          0 :: 0 :: 0 ::
            (List.replicate zeros 0 ++ (bytes16 question.qclass ++ more)) := by
    simp only [List.cons_append, List.nil_append, zeros_append_cons,
      List.append_assoc]
  have place :
      before.length + 3 = (before ++ [(0 : UInt8), 0]).length + 1 := by
    rw [List.length_append]
    rfl
  rw [noType, noBytes, moved, place, readU16_cons] at readsClass
  exact
    ⟨noType, (Except.ok.inj readsClass).symm.trans (by decide), isNext⟩

/-- Five zero bytes are read as a question with type and class 0, so one of six
is left over. -/
theorem written_put_zeros
    {b : DnsBuilder} {front : Bytes} {zeros : Nat}
    (room : b.pos + 6 ≤ b.buf.length)
    (written : b.written = front ++ List.replicate zeros 0) :
    (b.put ([0, 0] ++ ([0, 0] ++ [0, 0]))).written =
      (front ++ List.replicate 5 0) ++ List.replicate (zeros + 1) 0 := by
  have six :
      b.Appends ([0, 0] ++ ([0, 0] ++ [0, 0]))
        (b.put ([0, 0] ++ ([0, 0] ++ [0, 0]))) :=
    .put room
  have all :
      [0, 0] ++ ([0, 0] ++ [0, 0]) = List.replicate 6 (0 : UInt8) :=
    rfl
  rw [six.written, written, all, List.append_assoc, List.append_assoc,
    List.replicate_append_replicate, List.replicate_append_replicate]
  congr 2
  omega

/-- Near the end of the buffer the zero bytes cover every record that still
fits. -/
theorem not_readRr_near_end
    {b : DnsBuilder} (inside : b.pos ≤ b.buf.length) {front chunk : Bytes}
    {zeros start stop : Nat} {rr : DnsRr}
    (written : b.written = front ++ List.replicate (zeros + 1) 0)
    (last : 507 ≤ b.pos) (short : (b.written ++ chunk).length ≤ 512)
    (behind : front.length ≤ start)
    (read : readRr (b.written ++ chunk) start = .ok (rr, stop))
    (isType : rr.type = dnsTypeA) (four : rr.rdlength = 4) : False := by
  have room := readRr_size read four
  have length := length_written inside
  rw [written, List.length_append, List.length_replicate] at length
  obtain ⟨skipped, rfl⟩ : ∃ skipped, start = front.length + skipped :=
    ⟨start - front.length, by omega⟩
  obtain ⟨left, isLeft⟩ : ∃ left, zeros + 1 = skipped + (left + 3) :=
    ⟨zeros - skipped - 2, by omega⟩
  have shape :
      b.written ++ chunk =
        (front ++ List.replicate skipped 0) ++
          0 :: 0 :: 0 :: (List.replicate left 0 ++ chunk) := by
    have three :
        List.replicate (left + 3) (0 : UInt8) =
          0 :: 0 :: 0 :: List.replicate left 0 :=
      rfl
    rw [written, isLeft, List.replicate_add, three]
    simp only [List.append_assoc, List.cons_append]
  have place :
      front.length + skipped =
        (front ++ List.replicate skipped (0 : UInt8)).length := by
    rw [List.length_append, List.length_replicate]
  rw [shape, place] at read
  exact not_readRr_zeros read isType

/-- The record behind the questions is not read from a byte that was left
over. -/
theorem not_readRr_of_zeros
    (first : DnsQuestion) {b : DnsBuilder} {front : Bytes}
    {zeros stop : Nat} {rr : DnsRr} (size : b.buf.length = 512)
    (inside : b.pos ≤ b.buf.length)
    (written : b.written = front ++ List.replicate (zeros + 1) 0)
    (read :
      readRr (sinkholeRest first b []).written front.length =
        .ok (rr, stop))
    (isName : rr.name = first.qname) (isType : rr.type = dnsTypeA)
    (four : rr.rdlength = 4) : False := by
  obtain ⟨chunk, -, isRest, short⟩ := written_rest inside first []
  by_cases last : 507 ≤ b.pos
  · rw [isRest] at read
    exact
      not_readRr_near_end inside written last (size ▸ short)
        (Nat.le_refl _) read isType four
  · obtain ⟨middle, readsName, -⟩ := readRr_eq_ok read
    rw [isRest, written, List.append_assoc, List.replicate_succ,
      List.cons_append, readName_zero] at readsName
    have isRoot := (Prod.mk.inj (Except.ok.inj readsName)).1
    rw [isName] at isRoot
    have named := @writeNameUncompressed_root b (by omega)
    rw [isRoot] at named
    have two : b.Appends [0, 0] (b.put [0, 0]) :=
      .put (by
        simp only [List.length_cons, List.length_nil]
        omega)
    obtain ⟨more, continues⟩ :=
      appends_dnsBuildRr_of_name named two.inside dnsTypeA dnsClassIn 300
        [0, 0, 0, 0] 4
    have whole := (two.trans continues).written
    have shape :
        (sinkholeRest first b []).written =
          front ++ 0 :: 0 :: 0 :: (List.replicate zeros 0 ++ more) := by
      rw [← zeros_append, ← List.append_assoc, ← written]
      exact whole
    rw [shape] at read
    exact not_readRr_zeros read isType

/-- A question that is read back as itself from a byte that was left over is
the root with type and class 0, and ends among the bytes that it writes. -/
theorem question_of_zeros
    (first : DnsQuestion) {question : DnsQuestion}
    {questions : List DnsQuestion} {b : DnsBuilder} {front : Bytes}
    {zeros next : Nat} (inside : b.pos ≤ b.buf.length)
    (room : b.pos + 6 ≤ b.buf.length)
    (written : b.written = front ++ List.replicate (zeros + 1) 0)
    (read :
      readQuestion (sinkholeRest first b (question :: questions)).written
          front.length =
        .ok (question, next)) :
    next = (front ++ List.replicate 5 (0 : UInt8)).length ∧
      sinkholeRest first b (question :: questions) =
        sinkholeRest first (b.put ([0, 0] ++ ([0, 0] ++ [0, 0])))
          questions := by
  obtain ⟨chunk, -, isRest, -⟩ :=
    written_rest inside first (question :: questions)
  have isRoot : question.qname = [46] := by
    obtain ⟨middle, readsName, -⟩ := readQuestion_eq_ok read
    rw [isRest, written, List.append_assoc, List.replicate_succ,
      List.cons_append, readName_zero] at readsName
    exact (Prod.mk.inj (Except.ok.inj readsName)).1.symm
  have six :
      b.Appends
        ([0, 0] ++ (bytes16 question.qtype ++ bytes16 question.qclass))
        (b.put ([0, 0] ++ (bytes16 question.qtype ++
          bytes16 question.qclass))) :=
    .put room
  rw [sinkholeRest_root first questions isRoot room] at read ⊢
  -- the type is read from zero bytes, so it is zero, and then the class is
  -- read from zero bytes as well
  have three :
      ∃ more,
        (sinkholeRest first
            (b.put ([0, 0] ++ (bytes16 question.qtype ++
              bytes16 question.qclass))) questions).written =
          front ++ 0 :: 0 :: 0 ::
            (List.replicate zeros 0 ++
              (bytes16 question.qtype ++ bytes16 question.qclass ++
                more)) := by
    obtain ⟨more, -, isMore, -⟩ := written_rest six.inside first questions
    refine ⟨more, ?_⟩
    rw [isMore, six.written, written, ← zeros_append]
    simp
  obtain ⟨more, three⟩ := three
  rw [three] at read
  obtain ⟨noType, noClass, isNext⟩ := readQuestion_zeros_self read
  have noBytes : bytes16 (0 : UInt16) = [0, 0] := by decide
  rw [noType, noClass, noBytes]
  refine ⟨?_, rfl⟩
  rw [isNext, List.length_append, List.length_replicate]

/-- What is read from a byte that was left over is not what the sinkhole
packet announces. -/
theorem not_reads_of_zeros (first : DnsQuestion) :
    ∀ {questions : List DnsQuestion} {b : DnsBuilder} {front : Bytes}
      {zeros answersAt stop : Nat} {rr : DnsRr},
      b.buf.length = 512 → b.pos ≤ b.buf.length →
        b.written = front ++ List.replicate (zeros + 1) 0 →
          readMany
              (readQuestion (sinkholeRest first b questions).written)
              questions.length front.length =
            .ok (questions, answersAt) →
            readRr (sinkholeRest first b questions).written answersAt =
                .ok (rr, stop) →
              rr.name = first.qname → rr.type = dnsTypeA →
                rr.rdlength = 4 → False := by
  intro questions
  induction questions with
  | nil =>
      intro b front zeros answersAt stop rr size inside written reads
        readsRr isName isType four
      cases reads
      exact
        not_readRr_of_zeros first size inside written readsRr isName isType
          four
  | cons question questions inductionHypothesis =>
      intro b front zeros answersAt stop rr size inside written reads
        readsRr isName isType four
      by_cases last : 507 ≤ b.pos
      · obtain ⟨chunk, -, isRest, short⟩ :=
          written_rest inside first (question :: questions)
        have behind := readMany_start_le reads
        rw [isRest] at readsRr
        exact
          not_readRr_near_end inside written last (size ▸ short) behind
            readsRr isType four
      · obtain ⟨item, next, others, readsHead, readsTail, same⟩ :=
          readMany_succ_eq_ok.mp reads
        cases same
        have room : b.pos + 6 ≤ b.buf.length := by omega
        have six :
            b.Appends ([0, 0] ++ ([0, 0] ++ [0, 0]))
              (b.put ([0, 0] ++ ([0, 0] ++ [0, 0]))) :=
          .put room
        obtain ⟨place, isRest⟩ :=
          question_of_zeros first inside room written readsHead
        rw [isRest, place] at readsTail
        rw [isRest] at readsRr
        exact
          inductionHypothesis (six.size.trans size) six.inside
            (written_put_zeros room written) readsTail readsRr isName isType
            four

/-! ## What is complete fits -/

theorem word16_zero_left {high low : UInt8}
    (same : word16 0 high = word16 high low) : word16 high low = 0 := by
  have bytes := congrArg UInt16.toNat same
  rw [word16_toNat, word16_toNat, UInt8.toNat_zero] at bytes
  have noHigh : high = 0 := UInt8.toNat_inj.mp (by
    rw [UInt8.toNat_zero]
    omega)
  have noLow : low = 0 := UInt8.toNat_inj.mp (by
    rw [UInt8.toNat_zero]
    omega)
  rw [noHigh, noLow]
  decide

theorem eq_zero_of_shifted {value : UInt16}
    (same : word16 0 (value >>> 8).toUInt8 = value) : value = 0 := by
  have bytes := word16_bytes16 value
  rw [← bytes]
  exact word16_zero_left (same.trans bytes.symm)

/-- A root question that is read back as itself has type and class 0, and
leaves a zero byte over. -/
theorem readQuestion_root_self
    {before more : Bytes} {question : DnsQuestion} {next : Nat}
    (read :
      readQuestion
          (before ++
            ([0, 0] ++ (bytes16 question.qtype ++ bytes16 question.qclass) ++
              more))
          before.length =
        .ok (question, next)) :
    question.qtype = 0 ∧ question.qclass = 0 ∧
      next = before.length + 5 := by
  obtain ⟨middle, readsName, readsType, readsClass, isNext⟩ :=
    readQuestion_eq_ok read
  have shape :
      before ++
          (([0, 0] : Bytes) ++
            (bytes16 question.qtype ++ bytes16 question.qclass) ++ more) =
        before ++
          (0 : UInt8) :: 0 :: (question.qtype >>> 8).toUInt8 ::
            question.qtype.toUInt8 ::
              (question.qclass >>> 8).toUInt8 ::
                question.qclass.toUInt8 :: more := by
    simp [bytes16]
  rw [shape, readName_zero] at readsName
  obtain ⟨-, rfl⟩ := Prod.mk.inj (Except.ok.inj readsName)
  rw [shape, readU16_cons] at readsType
  have noType := eq_zero_of_shifted (Except.ok.inj readsType)
  have noByte : (0 : UInt16).toUInt8 = 0 := by decide
  have split :
      before ++
          (0 : UInt8) :: 0 :: (question.qtype >>> 8).toUInt8 ::
            question.qtype.toUInt8 ::
              (question.qclass >>> 8).toUInt8 ::
                question.qclass.toUInt8 :: more =
        (before ++ ([0, 0] : Bytes)) ++
          (question.qtype >>> 8).toUInt8 :: question.qtype.toUInt8 ::
            (question.qclass >>> 8).toUInt8 ::
              question.qclass.toUInt8 :: more := by
    simp
  have place :
      before.length + 1 + 2 = (before ++ [(0 : UInt8), 0]).length + 1 := by
    rw [List.length_append]
    rfl
  rw [shape, split, place, readU16_cons, noType, noByte] at readsClass
  exact
    ⟨noType, eq_zero_of_shifted (Except.ok.inj readsClass), isNext.symm⟩

theorem questionsSize_cons
    (question : DnsQuestion) (questions : List DnsQuestion) :
    questionsSize (question :: questions) =
      question.qname.length + 5 + questionsSize questions :=
  List.sum_cons

/-- Without further questions the record fits, or it has the root name. -/
theorem recordFits_of_read
    (first : DnsQuestion) {b : DnsBuilder} {stop : Nat} {rr : DnsRr}
    (size : b.buf.length = 512) (inside : b.pos ≤ b.buf.length)
    (readsRr :
      readRr (sinkholeRest first b []).written b.pos = .ok (rr, stop))
    (isName : rr.name = first.qname) (four : rr.rdlength = 4) :
    first.qname = [46] ∨ b.pos + (first.qname.length + 15) ≤ 512 := by
  obtain ⟨chunk, aligned, isRest, short⟩ := written_rest inside first []
  obtain ⟨middle, readsName, -, isStop, within⟩ := readRr_eq_ok readsRr
  have place : b.pos = b.written.length := (length_written inside).symm
  rw [isRest, place] at readsName
  have length : rr.rdlength.toNat = 4 := by
    rw [four]
    rfl
  rcases readName_aligned aligned readsName with
    ⟨isRoot, -⟩ | ⟨legal, isLegal, isMiddle, -⟩
  · exact Or.inl (isName ▸ isRoot)
  · apply Or.inr
    have encoded := legal.encode_length
    rw [← isLegal, isName] at encoded
    rw [isRest] at within
    omega

/-- A question with the root name is followed by zero bytes, so the rest is not
read back. -/
theorem not_reads_of_root
    (first : DnsQuestion) {question : DnsQuestion}
    {questions : List DnsQuestion} {b : DnsBuilder}
    {next answersAt stop : Nat} {rr : DnsRr}
    (size : b.buf.length = 512) (inside : b.pos ≤ b.buf.length)
    (room : b.pos + 6 ≤ b.buf.length) (isRoot : question.qname = [46])
    (readsHead :
      readQuestion (sinkholeRest first b (question :: questions)).written
          b.pos =
        .ok (question, next))
    (readsTail :
      readMany
          (readQuestion
            (sinkholeRest first b (question :: questions)).written)
          questions.length next =
        .ok (questions, answersAt))
    (readsRr :
      readRr (sinkholeRest first b (question :: questions)).written
          answersAt =
        .ok (rr, stop))
    (isName : rr.name = first.qname) (isType : rr.type = dnsTypeA)
    (four : rr.rdlength = 4) : False := by
  have six :
      b.Appends
        ([0, 0] ++ (bytes16 question.qtype ++ bytes16 question.qclass))
        (b.put ([0, 0] ++ (bytes16 question.qtype ++
          bytes16 question.qclass))) :=
    .put room
  have place : b.pos = b.written.length := (length_written inside).symm
  rw [sinkholeRest_root first questions isRoot room]
    at readsHead readsTail readsRr
  obtain ⟨more, -, isMore, -⟩ := written_rest six.inside first questions
  rw [isMore, six.written, List.append_assoc, place] at readsHead
  obtain ⟨noType, noClass, atNext⟩ := readQuestion_root_self readsHead
  have noBytes : bytes16 (0 : UInt16) = [0, 0] := by decide
  rw [noType, noClass, noBytes] at six readsTail readsRr
  have noZeros : b.written = b.written ++ List.replicate 0 0 :=
    (List.append_nil _).symm
  have front :
      next = (b.written ++ List.replicate 5 (0 : UInt8)).length := by
    rw [atNext, List.length_append, List.length_replicate]
  rw [front] at readsTail
  exact
    not_reads_of_zeros first (six.size.trans size) six.inside
      (written_put_zeros room noZeros) readsTail readsRr isName isType four

/-- A question that is read back as itself, with others and the record behind
it, has a legal name and was written at its place. -/
theorem legal_of_reads
    (first : DnsQuestion) {question : DnsQuestion}
    {questions : List DnsQuestion} {b : DnsBuilder}
    {next answersAt stop : Nat} {rr : DnsRr}
    (size : b.buf.length = 512) (inside : b.pos ≤ b.buf.length)
    (readsHead :
      readQuestion (sinkholeRest first b (question :: questions)).written
          b.pos =
        .ok (question, next))
    (readsTail :
      readMany
          (readQuestion
            (sinkholeRest first b (question :: questions)).written)
          questions.length next =
        .ok (questions, answersAt))
    (readsRr :
      readRr (sinkholeRest first b (question :: questions)).written
          answersAt =
        .ok (rr, stop))
    (isName : rr.name = first.qname) (isType : rr.type = dnsTypeA)
    (four : rr.rdlength = 4) :
    ∃ spec : QuestionSpec,
      question.qname = spec.name.text ∧
        next = b.pos + spec.encode.length ∧ next ≤ b.buf.length ∧
          sinkholeRest first b (question :: questions) =
            sinkholeRest first (b.put spec.encode) questions := by
  obtain ⟨chunk, aligned, isRest, short⟩ :=
    written_rest inside first (question :: questions)
  have behind := readMany_start_le readsTail
  have roomRr := readRr_size readsRr four
  rw [isRest] at roomRr
  have place : b.pos = b.written.length := (length_written inside).symm
  obtain ⟨middle, readsName, -, -, isNext⟩ := readQuestion_eq_ok readsHead
  rw [isRest, place] at readsName
  rcases readName_aligned aligned readsName with
    ⟨isRoot, atRoot, -⟩ | ⟨legal, isLegal, isMiddle, -⟩
  · have room : b.pos + 6 ≤ b.buf.length := by omega
    have never :=
      not_reads_of_root first size inside room isRoot readsHead readsTail
        readsRr isName isType four
    exact never.elim
  · have after :
        next =
          b.pos +
            (QuestionSpec.mk legal question.qtype
              question.qclass).encode.length := by
      simp only [QuestionSpec.encode, List.length_append, bytes16_length]
      omega
    have room : next ≤ b.buf.length := by omega
    have built := @buildQuestion_eq ⟨legal, _, _⟩ b (after ▸ room)
    rw [buildQuestion] at built
    refine ⟨⟨legal, question.qtype, question.qclass⟩, isLegal, after, room, ?_⟩
    rw [sinkholeRest_cons, isLegal, built]

/-- What the sinkhole packet announces is read from it only if every name is
that of legal labels, and all of it has had room. -/
theorem fits_of_reads (first : DnsQuestion) :
    ∀ {questions : List DnsQuestion} {b : DnsBuilder}
      {answersAt stop : Nat} {rr : DnsRr},
      b.buf.length = 512 → b.pos ≤ b.buf.length →
        readMany (readQuestion (sinkholeRest first b questions).written)
            questions.length b.pos =
          .ok (questions, answersAt) →
          readRr (sinkholeRest first b questions).written answersAt =
              .ok (rr, stop) →
            rr.name = first.qname → rr.type = dnsTypeA →
              rr.rdlength = 4 →
                (∀ question, question ∈ questions →
                    Rebuildable question.qname) ∧
                  (first.qname = [46] ∨
                    b.pos + questionsSize questions +
                        (first.qname.length + 15) ≤ 512) := by
  intro questions
  induction questions with
  | nil =>
      intro b answersAt stop rr size inside reads readsRr isName isType
        four
      cases reads
      refine ⟨fun _ member => (by cases member), ?_⟩
      exact recordFits_of_read first size inside readsRr isName four
  | cons question questions inductionHypothesis =>
      intro b answersAt stop rr size inside reads readsRr isName isType
        four
      obtain ⟨item, next, others, readsHead, readsTail, same⟩ :=
        readMany_succ_eq_ok.mp reads
      cases same
      obtain ⟨spec, isLegal, after, room, isRest⟩ :=
        legal_of_reads first size inside readsHead readsTail readsRr isName
          isType four
      have whole := @Appends.put b spec.encode (after ▸ room)
      rw [isRest, after, ← put_pos] at readsTail
      rw [isRest] at readsRr
      obtain ⟨names, fits⟩ :=
        inductionHypothesis (whole.size.trans size) whole.inside readsTail
          readsRr isName isType four
      refine ⟨?_, ?_⟩
      · intro other member
        rcases List.mem_cons.mp member with same | later
        · rw [same, isLegal]
          exact rebuildable_text spec.name
        · exact names other later
      · have text := congrArg List.length isLegal
        have length := spec.name.encode_length
        rw [put_pos] at fits
        simp only [QuestionSpec.encode, List.length_append,
          bytes16_length] at fits
        rw [questionsSize_cons]
        rcases fits with root | fits
        · exact Or.inl root
        · exact Or.inr (by omega)

/-! ## What fits is complete -/

/-- The record that answers the first question. -/
def sinkholeRecord (name : LegalName) : RecordSpec where
  name := name
  type := dnsTypeA
  rrclass := dnsClassIn
  ttl := 300
  rdata := [0, 0, 0, 0]
  fits := by decide

theorem exists_specs
    {questions : List DnsQuestion}
    (parsed :
      ∀ question, question ∈ questions → ParsedName question.qname)
    (names :
      ∀ question, question ∈ questions → Rebuildable question.qname) :
    ∃ specs : List QuestionSpec,
      specs.map QuestionSpec.parsed = questions := by
  induction questions with
  | nil => exact ⟨[], rfl⟩
  | cons question questions inductionHypothesis =>
      obtain ⟨legal, isName⟩ :=
        exists_legalName (parsed question List.mem_cons_self)
          (names question List.mem_cons_self)
      obtain ⟨specs, isRest⟩ :=
        inductionHypothesis
          (fun other later => parsed other (List.mem_cons_of_mem _ later))
          (fun other later => names other (List.mem_cons_of_mem _ later))
      refine ⟨⟨legal, question.qtype, question.qclass⟩ :: specs, ?_⟩
      rw [List.map_cons, isRest, QuestionSpec.parsed]
      simp only
      rw [isName]

theorem length_encodings (specs : List QuestionSpec) :
    (specs.flatMap QuestionSpec.encode).length =
      questionsSize (specs.map QuestionSpec.parsed) := by
  induction specs with
  | nil => rfl
  | cons spec specs inductionHypothesis =>
      rw [List.flatMap_cons, List.length_append, inductionHypothesis,
        List.map_cons, questionsSize_cons, QuestionSpec.encode,
        List.length_append, spec.name.encode_length]
      simp only [QuestionSpec.parsed, List.length_append, bytes16_length]

/-- With room for all of it the questions and the record are one write. -/
theorem sinkholeRest_of_specs
    (first : LegalName) (firstType firstClass : UInt16)
    {specs : List QuestionSpec} {b : DnsBuilder}
    (room :
      b.pos +
          ((specs.flatMap QuestionSpec.encode).length +
            (sinkholeRecord first).encode.length) ≤
        b.buf.length) :
    sinkholeRest ⟨first.text, firstType, firstClass⟩ b
        (specs.map QuestionSpec.parsed) =
      b.put
        (specs.flatMap QuestionSpec.encode ++
          (sinkholeRecord first).encode) := by
  induction specs generalizing b with
  | nil =>
      have built :=
        @buildRecord_eq (sinkholeRecord first) b (by
          simp only [List.flatMap_nil, List.length_nil] at room
          omega)
      unfold buildRecord at built
      exact congrArg Prod.snd built
  | cons spec specs inductionHypothesis =>
      rw [List.flatMap_cons, List.length_append] at room
      have built := @buildQuestion_eq spec b (by omega)
      unfold buildQuestion at built
      rw [List.map_cons, sinkholeRest_cons]
      show
        sinkholeRest ⟨first.text, firstType, firstClass⟩
            (dnsBuildQuestion b spec.name.text spec.qtype spec.qclass).2
            (specs.map QuestionSpec.parsed) =
          _
      rw [built, inductionHypothesis (by
          rw [put_pos, put_buf_length]
          omega),
        put_put (by
          rw [List.length_append]
          omega), List.flatMap_cons, List.append_assoc]

/-- The message of the sinkhole packet. -/
def sinkholeMessage (query : DnsMessage) (first : LegalName)
    (specs : List QuestionSpec) (few : specs.length ≤ 65535) :
    MessageSpec where
  id := query.header.id
  flags := htons (dnsQrResponse ||| dnsRcodeNoerror)
  questions := specs
  answers := [sinkholeRecord first]
  authorities := []
  additionals := []
  questionsFit := few
  answersFit := by
    rw [List.length_singleton]
    decide
  authoritiesFit := Nat.zero_le _
  additionalsFit := Nat.zero_le _

theorem sinkholePacket_of_specs
    {query : DnsMessage} {legal : LegalName} {firstType firstClass : UInt16}
    {specs : List QuestionSpec}
    (isSpecs : specs.map QuestionSpec.parsed = query.questions)
    (few : specs.length ≤ 65535)
    (size :
      (specs.flatMap QuestionSpec.encode).length +
          (sinkholeRecord legal).encode.length + 12 ≤ 512) :
    sinkholePacket query ⟨legal.text, firstType, firstClass⟩ =
      (sinkholeMessage query legal specs few).bytes := by
  have start := pos_sinkholeStart query
  have length := size_sinkholeStart query
  have rest :=
    @sinkholeRest_of_specs legal firstType firstClass specs
      (sinkholeStart query) (by omega)
  rw [isSpecs] at rest
  rw [sinkholePacket_eq, rest, written_put (by
    rw [List.length_append]
    omega), written_sinkholeStart]
  have items :
      (sinkholeMessage query legal specs few).itemBytes =
        specs.flatMap QuestionSpec.encode ++
          (sinkholeRecord legal).encode := by
    simp [MessageSpec.itemBytes, sinkholeMessage]
  have count : query.questions.length = specs.length := by
    rw [← isSpecs, List.length_map]
  rw [MessageSpec.bytes, items, sinkholeHeader, count]
  rfl

/-- The record behind the questions has the address 0.0.0.0. -/
theorem rdata_sinkholeMessage
    (query : DnsMessage) (legal : LegalName) (specs : List QuestionSpec)
    (few : specs.length ≤ 65535) :
    ((sinkholeRecord legal).parsedAt
        (12 +
          (sinkholeMessage query legal specs
            few).questionBytes.length)).rdataBytes
        (sinkholeMessage query legal specs few).bytes =
      [0, 0, 0, 0] := by
  generalize isMessage : sinkholeMessage query legal specs few = message
  have place :
      12 + message.questionBytes.length =
        (message.headBytes ++ message.questionBytes).length := by
    rw [List.length_append, message.headBytes_length]
  have answer :
      message.answerBytes ++
          (message.authorityBytes ++ message.additionalBytes) =
        (sinkholeRecord legal).encode ++ [] := by
    rw [← isMessage]
    simp [sinkholeMessage, MessageSpec.answerBytes,
      MessageSpec.authorityBytes, MessageSpec.additionalBytes]
  rw [place, ← message.bytes_at_answers, answer]
  exact
    congrArg RecordView.rdata
      (view_parsedAt (message.headBytes ++ message.questionBytes) []
        (sinkholeRecord legal))

theorem complete_of_fits
    {query : DnsMessage} {first : DnsQuestion} {more : List DnsQuestion}
    (asked : query.questions = first :: more)
    (parsed :
      ∀ question, question ∈ query.questions → ParsedName question.qname)
    (few : query.questions.length ≤ 65535)
    (fits : SinkholeFits query first) :
    CompleteSinkhole query first (sinkholePacket query first) := by
  obtain ⟨specs, isSpecs⟩ := exists_specs parsed fits.names
  have isFirst : first ∈ query.questions := by
    rw [asked]
    exact List.mem_cons_self
  obtain ⟨legal, isName⟩ :=
    exists_legalName (parsed first isFirst) (fits.names first isFirst)
  have fewSpecs : specs.length ≤ 65535 := by
    rw [← isSpecs, List.length_map] at few
    exact few
  have size :
      (specs.flatMap QuestionSpec.encode).length +
          (sinkholeRecord legal).encode.length + 12 ≤ 512 := by
    have room := fits.room
    have encoded := legal.encode_length
    rw [isName] at encoded
    rw [length_encodings, isSpecs]
    simp only [sinkholeRecord, RecordSpec.encode, List.length_append,
      RecordSpec.fixedBytes_length, List.length_cons, List.length_nil]
    omega
  have isPacket :=
    @sinkholePacket_of_specs query legal first.qtype first.qclass specs
      isSpecs fewSpecs size
  rw [isName] at isPacket
  rw [isPacket]
  exact
    ⟨_, (sinkholeRecord legal).parsedAt _, _, _, _,
      dnsParseMessage_bytes _, parsesWhole_bytes _, isSpecs, rfl, isName,
      rfl, rfl, rdata_sinkholeMessage query legal specs fewSpecs⟩

theorem fits_of_complete
    {query : DnsMessage} {first : DnsQuestion} {more : List DnsQuestion}
    (asked : query.questions = first :: more)
    (complete :
      CompleteSinkhole query first (sinkholePacket query first)) :
    SinkholeFits query first := by
  obtain ⟨msg, rr, answersAt, authoritiesAt, additionalsAt, -, whole,
    isQuestions, isAnswers, isName, isType, four, -⟩ := complete
  have start := pos_sinkholeStart query
  have length := size_sinkholeStart query
  have reads := whole.questions
  have count :=
    (tiling_of_readMany
      (fun _ _ _ single => (readQuestion_progress single).1) reads).1
  rw [← count, isQuestions, sinkholePacket_eq, ← start] at reads
  have readsAnswers := whole.answers
  have one := (recordTiling_of_readMany readsAnswers).1
  rw [isAnswers, List.length_singleton] at one
  rw [← one, isAnswers] at readsAnswers
  obtain ⟨item, next, others, readsRr, -, same⟩ :=
    readMany_succ_eq_ok.mp readsAnswers
  cases same
  rw [sinkholePacket_eq] at readsRr
  obtain ⟨names, fits⟩ :=
    fits_of_reads first length (by omega) reads readsRr isName isType four
  refine ⟨names, ?_⟩
  rcases fits with isRoot | fits
  · have isFirst := names first (by
      rw [asked]
      exact List.mem_cons_self)
    rw [isRoot] at isFirst
    exact absurd rfl isFirst.noLeadingDot
  · rw [start] at fits
    exact fits

/-! ## The four block branches -/

/-- A place where `process_dns_query` sends a sinkhole packet. -/
def Site.isSinkhole (site : Site) : Bool :=
  site.isBlock || decide (site = .quarantine)

theorem data_of_sinkhole
    {env : Env} {cfg : Config F} {fw : Firewall} {inbuf : Bytes}
    {client : Option SockAddrIn} {query : DnsMessage}
    {first : DnsQuestion} {more : List DnsQuestion} {site : Site}
    {data : Bytes} (parsed : dnsParseMessage inbuf = .ok query)
    (asked : query.questions = first :: more)
    (isSinkhole : site.isSinkhole = true)
    (sent :
      .respond site data ∈
        (processDnsQuery env cfg fw inbuf client).effects) :
    data = sinkholePacket query first := by
  have branch := branch_processDnsQuery env cfg fw inbuf client
  generalize processDnsQuery env cfg fw inbuf client = result
    at branch sent
  have same :
      ∀ {other : DnsMessage} {question : DnsQuestion}
        {others : List DnsQuestion},
        dnsParseMessage inbuf = .ok other →
          other.questions = question :: others →
            sinkholePacket other question = sinkholePacket query first := by
    intro other question others otherParsed otherAsked
    obtain ⟨rfl, rfl, -⟩ :=
      same_question parsed asked otherParsed otherAsked
    rfl
  have ofBlock :
      ∀ {tick : Nat} {place : Site} {state : Firewall}
        {other : DnsMessage} {question : DnsQuestion}
        {others : List DnsQuestion}
        {resolution : Option (Outcome × Bool)} {log : List Event},
        dnsParseMessage inbuf = .ok other →
          other.questions = question :: others →
            .respond site data ∈
                (blockedCall env tick place state client other question
                  resolution log).effects →
              data = sinkholePacket query first := by
    intro tick place state other question others resolution log
      otherParsed otherAsked sent
    unfold blockedCall at sent
    rcases List.mem_cons.mp sent with isHead | inReports
    · cases isHead
      exact same otherParsed otherAsked
    · exact
        absurd inReports
          (respond_not_mem_blockReports _ _ _ _ _)
  cases branch with
  | unparsed failed =>
      rw [parsed] at failed
      cases failed
  | limited _ _ => cases List.mem_singleton.mp sent
  | unasked _ _ _ => cases sent
  | banned otherParsed _ otherAsked _ =>
      cases List.mem_singleton.mp sent
      exact same otherParsed otherAsked
  | listed otherParsed _ otherAsked _ _ =>
      exact ofBlock otherParsed otherAsked sent
  | generated otherParsed _ otherAsked _ _ _ =>
      exact ofBlock otherParsed otherAsked sent
  | ruled passes _ =>
      obtain ⟨others, otherAsked⟩ := passes.asked
      exact ofBlock passes.parsed otherAsked sent
  | allowed _ _ =>
      rcases effects_sendAnswer _ _ _ _ _ _ _ with
        none | ⟨place, packet, only, notBlock, notQuarantine⟩
      · rw [none] at sent
        cases sent
      · rw [only] at sent
        cases List.mem_singleton.mp sent
        rw [Site.isSinkhole, notBlock, decide_eq_false notQuarantine]
          at isSinkhole
        cases isSinkhole

/-- The packet of a block branch is complete exactly when every name of the
query can be built again and all of it fits. -/
theorem completeSinkhole_iff_fits
    (env : Env) (cfg : Config F) (fw : Firewall) (inbuf : Bytes)
    (client : Option SockAddrIn) (query : DnsMessage)
    (first : DnsQuestion) (more : List DnsQuestion) (site : Site)
    (data : Bytes) (parsed : dnsParseMessage inbuf = .ok query)
    (asked : query.questions = first :: more)
    (isSinkhole : site.isSinkhole = true)
    (sent :
      .respond site data ∈
        (processDnsQuery env cfg fw inbuf client).effects) :
    CompleteSinkhole query first data ↔ SinkholeFits query first := by
  rw [data_of_sinkhole parsed asked isSinkhole sent]
  constructor
  · exact fits_of_complete asked
  · intro fits
    obtain ⟨_, _, _, _, _, _, readsQuestions, _⟩ :=
      dnsParseMessage_eq_ok parsed
    have count :=
      (tiling_of_readMany
        (fun _ _ _ single => (readQuestion_progress single).1)
        readsQuestions).1
    have few : query.questions.length ≤ 65535 := by
      rw [count]
      exact Nat.le_of_lt_succ query.header.qdcount.toNat_lt
    exact
      complete_of_fits asked
        (fun question member =>
          parsedName_of_dnsParseMessage parsed member)
        few fits

/-- The packet for a listed name in a query of its own is complete. -/
theorem completeSinkhole_iff_fits_a :
    CompleteSinkhole
      ⟨⟨4660, 256, 1, 0, 0, 0⟩, [⟨[97, 46], 1, 1⟩], [], [], []⟩
      ⟨[97, 46], 1, 1⟩
      [18, 52, 0, 128, 0, 1, 0, 1, 0, 0, 0, 0,
        1, 97, 0, 0, 1, 0, 1,
        1, 97, 0, 0, 1, 0, 1, 0, 0, 1, 44, 0, 4, 0, 0, 0, 0] := by
  have parsed :
      dnsParseMessage queryA =
        .ok ⟨⟨4660, 256, 1, 0, 0, 0⟩, [⟨[97, 46], 1, 1⟩], [], [], []⟩ := by
    decide +kernel
  have sent :
      .respond .blacklist
          [18, 52, 0, 128, 0, 1, 0, 1, 0, 0, 0, 0,
            1, 97, 0, 0, 1, 0, 1,
            1, 97, 0, 0, 1, 0, 1, 0, 0, 1, 44, 0, 4, 0, 0, 0, 0] ∈
        (processDnsQuery envOffline configListingA (firewallStart 0)
          queryA (some visitor)).effects := by
    decide +kernel
  refine
    (completeSinkhole_iff_fits envOffline configListingA (firewallStart 0)
      queryA (some visitor) _ ⟨[97, 46], 1, 1⟩ [] .blacklist _ parsed rfl
      rfl sent).mpr ⟨?_, by decide⟩
  intro question member
  rw [List.mem_singleton.mp member]
  exact ⟨by simp, by decide, by simp, by decide⟩

/-- Every sinkhole packet would be complete. -/
def SinkholesComplete : Prop :=
  ∀ (F : Type) (env : Env) (cfg : Config F) (fw : Firewall)
    (inbuf : Bytes) (client : Option SockAddrIn) (query : DnsMessage)
    (first : DnsQuestion) (more : List DnsQuestion) (site : Site)
    (data : Bytes),
    dnsParseMessage inbuf = .ok query →
      query.questions = first :: more →
        site.isSinkhole = true →
          .respond site data ∈
              (processDnsQuery env cfg fw inbuf client).effects →
            CompleteSinkhole query first data

/-- A query for `a.` and for the root. -/
def queryRoot : Bytes :=
  [18, 52, 1, 0, 0, 2, 0, 0, 0, 0, 0, 0,
    1, 97, 0, 0, 1, 0, 1, 0, 0, 2, 0, 1]

theorem not_sinkholesComplete : ¬ SinkholesComplete := by
  intro complete
  have parsed :
      dnsParseMessage queryRoot =
        .ok
          ⟨⟨4660, 256, 2, 0, 0, 0⟩, [⟨[97, 46], 1, 1⟩, ⟨[46], 2, 1⟩], [],
            [], []⟩ := by
    decide +kernel
  have sent :
      .respond .blacklist
          [18, 52, 0, 128, 0, 2, 0, 1, 0, 0, 0, 0,
            1, 97, 0, 0, 1, 0, 1, 0, 0, 0, 2, 0, 1,
            1, 97, 0, 0, 1, 0, 1, 0, 0, 1, 44, 0, 4, 0, 0, 0, 0] ∈
        (processDnsQuery envOffline configListingA (firewallStart 0)
          queryRoot (some visitor)).effects := by
    decide +kernel
  have read :
      dnsParseMessage
          [18, 52, 0, 128, 0, 2, 0, 1, 0, 0, 0, 0,
            1, 97, 0, 0, 1, 0, 1, 0, 0, 0, 2, 0, 1,
            1, 97, 0, 0, 1, 0, 1, 0, 0, 1, 44, 0, 4, 0, 0, 0, 0] =
        .error .reject := by
    decide +kernel
  obtain ⟨msg, _, _, _, _, accepted, -⟩ :=
    complete Rat envOffline configListingA (firewallStart 0) queryRoot
      (some visitor) _ _ _ .blacklist _ parsed rfl rfl sent
  rw [read] at accepted
  cases accepted

end DnsFirewall
