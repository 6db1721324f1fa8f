import Mathlib.Data.List.Chain
import DnsFirewall.Wire.RoundTrip

/-!
# Parsed names, built again

The text of a parsed name does not say where a label holds a dot or a NUL, and
spells the root as an empty label.  A name is read back after it is built again
exactly when its text, cut at the dots, is that of a legal name.
-/

namespace DnsFirewall

open CString Cursor BigEndian

/-- The text is that of one to twenty labels without NUL, none of them
empty. -/
structure Rebuildable (name : Bytes) : Prop where
  noNul : ∀ character, character ∈ name → character ≠ 0
  noLeadingDot : name.head? ≠ some 46
  noDoubleDot :
    name.IsChain fun first second => ¬ (first = 46 ∧ second = 46)
  fewDots : name.count 46 ≤ 20

/-- A text of pieces that each end with a dot, none too long for a label. -/
def Dotted (name : Bytes) : Prop :=
  ∃ pieces : List Bytes,
    (∀ piece, piece ∈ pieces →
        piece.length ≤ dnsMaxLabelLen ∧
          ∀ character, character ∈ piece → character ≠ 46) ∧
      name = nameText pieces

/-- What the builder leaves of names: legal labels, then nothing or a root
byte and anything. -/
inductive Aligned : Bytes → Prop where
  | nil : Aligned []
  | root (more : Bytes) : Aligned (0 :: more)
  | label {label rest : Bytes} (legal : LegalLabel label)
      (aligned : Aligned rest) :
      Aligned (label.length.toUInt8 :: (label ++ rest))

/-- The builder has appended the chunk, inside its buffer. -/
structure DnsBuilder.Appends (b : DnsBuilder) (chunk : Bytes)
    (after : DnsBuilder) : Prop where
  size : after.buf.length = b.buf.length
  written : after.written = b.written ++ chunk
  pos : after.pos = b.pos + chunk.length
  inside : after.pos ≤ after.buf.length

/-! ## Texts and their pieces -/

theorem nameText_append (first second : List Bytes) :
    nameText (first ++ second) = nameText first ++ nameText second := by
  induction first with
  | nil => rfl
  | cons label labels inductionHypothesis =>
      rw [List.cons_append, nameText, nameText, inductionHypothesis,
        List.append_assoc, List.cons_append]

theorem labelBytes_length (labels : List Bytes) :
    (labelBytes labels).length = (nameText labels).length := by
  induction labels with
  | nil => rfl
  | cons label labels inductionHypothesis =>
      rw [labelBytes, nameText, List.length_cons, List.length_append,
        List.length_append, List.length_cons, inductionHypothesis]
      omega

theorem LegalName.encode_length (name : LegalName) :
    name.encode.length = name.text.length + 1 := by
  rw [LegalName.encode, encodeName, List.length_append, labelBytes_length]
  rfl

theorem Dotted.append
    {first second : Bytes} (left : Dotted first) (right : Dotted second) :
    Dotted (first ++ second) := by
  obtain ⟨pieces, short, rfl⟩ := left
  obtain ⟨others, otherShort, rfl⟩ := right
  refine ⟨pieces ++ others, ?_, (nameText_append pieces others).symm⟩
  intro piece member
  rcases List.mem_append.mp member with isFirst | isSecond
  · exact short piece isFirst
  · exact otherShort piece isSecond

/-- The dots inside a label cut it into pieces. -/
theorem exists_pieces (label : Bytes) :
    ∃ first others,
      label ++ [46] = nameText (first :: others) ∧
        ∀ piece, piece ∈ first :: others →
          piece.length ≤ label.length ∧
            ∀ character, character ∈ piece → character ≠ 46 := by
  induction label with
  | nil =>
      refine ⟨[], [], rfl, ?_⟩
      intro piece member
      rw [List.mem_singleton.mp member]
      exact ⟨Nat.le_refl _, fun _ inside => by cases inside⟩
  | cons head tail inductionHypothesis =>
      obtain ⟨first, others, text, short⟩ := inductionHypothesis
      have longer :
          ∀ piece, piece ∈ first :: others →
            piece.length ≤ (head :: tail).length ∧
              ∀ character, character ∈ piece → character ≠ 46 := by
        intro piece member
        have bound := short piece member
        exact ⟨Nat.le_succ_of_le bound.1, bound.2⟩
      by_cases isDot : head = 46
      · refine ⟨[], first :: others, ?_, ?_⟩
        · rw [List.cons_append, text, isDot]
          rfl
        · intro piece member
          rcases List.mem_cons.mp member with rfl | isLater
          · exact ⟨Nat.zero_le _, fun _ inside => by cases inside⟩
          · exact longer piece isLater
      · refine ⟨head :: first, others, ?_, ?_⟩
        · rw [List.cons_append, text]
          rfl
        · intro piece member
          rcases List.mem_cons.mp member with rfl | isLater
          · have bound := short first List.mem_cons_self
            refine ⟨Nat.succ_le_succ bound.1, ?_⟩
            intro character inside
            rcases List.mem_cons.mp inside with rfl | isTail
            · exact isDot
            · exact bound.2 character isTail
          · exact longer piece (List.mem_cons_of_mem _ isLater)

theorem dotted_label
    {label : Bytes} (short : label.length ≤ dnsMaxLabelLen) :
    Dotted (label ++ [46]) := by
  obtain ⟨first, others, text, pieces⟩ := exists_pieces label
  refine ⟨first :: others, ?_, text⟩
  intro piece member
  have bound := pieces piece member
  exact ⟨Nat.le_trans bound.1 short, bound.2⟩

theorem putOut_eq_ok
    {outLen : Nat} {out bytes result : Bytes}
    (put : putOut outLen out bytes = .ok result) :
    result = out ++ bytes ∧ out.length + bytes.length ≤ outLen := by
  unfold putOut at put
  split at put
  · cases put
    exact ⟨rfl, ‹_›⟩
  · cases put

theorem finishName_eq_ok
    {outLen : Nat} {out name : Bytes}
    (finished : finishName outLen out = .ok name) :
    name = if out = [] then [46] else out := by
  unfold finishName at finished
  obtain ⟨_, _, same⟩ := bind_eq_ok.mp finished
  cases same
  by_cases empty : out = []
  · rw [if_pos empty, if_pos (by rw [empty]; rfl)]
  · rw [if_neg empty,
      if_neg fun zero => empty (List.eq_nil_of_length_eq_zero zero)]

/-- Whatever the packet holds, the text that the loop makes of it is cut by
dots into pieces that fit a label, and is not empty. -/
theorem dotted_readNameLoop
    (pkt : Bytes) (outLen : Nat) {loops pos : Nat} {out name : Bytes}
    {jumped : Option Nat} {stop : Nat} (dotted : Dotted out)
    (read :
      readNameLoop pkt outLen loops pos out jumped = .ok (name, stop)) :
    Dotted name ∧ name ≠ [] := by
  induction loops generalizing pos out jumped with
  | zero => cases read
  | succ loops inductionHypothesis =>
      rw [readNameLoop] at read
      obtain ⟨step, isStep, passed⟩ := bind_eq_ok.mp read
      rcases nameStep_cases pkt outLen out.length pos with
        rejected | ⟨-, found⟩ | ⟨target, -, -, found⟩ |
        ⟨bytes, -, short, -, -, found⟩
      · rw [rejected] at isStep
        cases isStep
      · rw [found] at isStep
        cases isStep
        obtain ⟨finished, isFinished, same⟩ := bind_eq_ok.mp passed
        cases same
        rw [finishName_eq_ok isFinished]
        split
        · exact ⟨@dotted_label [] (Nat.zero_le _), List.cons_ne_nil _ _⟩
        · rename_i spelled
          exact ⟨dotted, spelled⟩
      · rw [found] at isStep
        cases isStep
        exact inductionHypothesis dotted passed
      · rw [found] at isStep
        cases isStep
        obtain ⟨longer, isPut, rest⟩ := bind_eq_ok.mp passed
        rw [(putOut_eq_ok isPut).1] at rest
        exact
          inductionHypothesis (dotted.append (dotted_label short)) rest

theorem readQuestion_eq_ok
    {pkt : Bytes} {start stop : Nat} {question : DnsQuestion}
    (read : readQuestion pkt start = .ok (question, stop)) :
    ∃ middle,
      readName pkt dnsMaxNameLen start = .ok (question.qname, middle) ∧
        readU16 pkt middle = .ok question.qtype ∧
          readU16 pkt (middle + 2) = .ok question.qclass ∧
            middle + 4 = stop := by
  unfold readQuestion at read
  obtain ⟨⟨name, middle⟩, readsName, rest⟩ := bind_eq_ok.mp read
  simp only at rest
  split at rest
  · cases rest
  · obtain ⟨qtype, readsType, more⟩ := bind_eq_ok.mp rest
    obtain ⟨qclass, readsClass, same⟩ := bind_eq_ok.mp more
    cases same
    exact ⟨middle, readsName, readsType, readsClass, rfl⟩

/-- A name as the parser gives it. -/
structure ParsedName (name : Bytes) : Prop where
  dotted : Dotted name
  nonempty : name ≠ []
  short : name.length < dnsMaxNameLen

theorem parsedName_of_readQuestion
    {pkt : Bytes} {start stop : Nat} {question : DnsQuestion}
    (read : readQuestion pkt start = .ok (question, stop)) :
    ParsedName question.qname := by
  obtain ⟨middle, readsName, -⟩ := readQuestion_eq_ok read
  obtain ⟨dotted, nonempty⟩ :=
    dotted_readNameLoop pkt dnsMaxNameLen ⟨[], by simp, rfl⟩ readsName
  exact
    ⟨dotted, nonempty, (readName_ok two_le_dnsMaxNameLen readsName).1⟩

theorem parsedName_of_dnsParseMessage
    {buf : Bytes} {msg : DnsMessage} {question : DnsQuestion}
    (parsed : dnsParseMessage buf = .ok msg)
    (member : question ∈ msg.questions) :
    ParsedName question.qname := by
  obtain ⟨_, _, read⟩ := exists_readQuestion_of_mem parsed member
  exact parsedName_of_readQuestion read

/-! ## Rebuildable texts are those of legal names -/

theorem count_nameText
    {labels : List Bytes}
    (noDots :
      ∀ label, label ∈ labels →
        ∀ character, character ∈ label → character ≠ 46) :
    (nameText labels).count 46 = labels.length := by
  induction labels with
  | nil => rfl
  | cons label labels inductionHypothesis =>
      have none : label.count 46 = 0 :=
        List.count_eq_zero.mpr fun member =>
          noDots label List.mem_cons_self 46 member rfl
      rw [nameText, List.count_append, List.count_cons_self, none,
        inductionHypothesis fun other member =>
          noDots other (List.mem_cons_of_mem _ member),
        List.length_cons, Nat.zero_add]

theorem isChain_of_noDot
    {label : Bytes}
    (noDot : ∀ character, character ∈ label → character ≠ 46) :
    label.IsChain fun first second => ¬ (first = 46 ∧ second = 46) := by
  have pairs :
      label.Pairwise fun first second =>
        ¬ (first = 46 ∧ second = 46) := by
    rw [List.pairwise_iff_forall_sublist]
    intro first second pair both
    exact noDot first (pair.subset List.mem_cons_self) both.1
  exact pairs.isChain

/-- Two dots in a row are an empty piece, and so is a dot in front. -/
theorem pieces_nonempty
    {pieces : List Bytes} (noLeadingDot : (nameText pieces).head? ≠ some 46)
    (noDoubleDot :
      (nameText pieces).IsChain fun first second =>
        ¬ (first = 46 ∧ second = 46)) :
    ∀ piece, piece ∈ pieces → piece ≠ [] := by
  induction pieces with
  | nil =>
      intro piece member
      cases member
  | cons first others inductionHypothesis =>
      have chain :=
        (List.isChain_append.mp noDoubleDot).2.1
      have later := List.isChain_cons.mp chain
      intro piece member
      rcases List.mem_cons.mp member with rfl | isOther
      · intro same
        subst same
        exact noLeadingDot rfl
      · apply inductionHypothesis _ later.2 piece isOther
        intro leading
        exact later.1 46 leading ⟨rfl, rfl⟩

theorem head?_nameText_ne
    {labels : List Bytes}
    (legal : ∀ label, label ∈ labels → LegalLabel label) :
    (nameText labels).head? ≠ some 46 := by
  cases labels with
  | nil =>
      intro leading
      cases leading
  | cons label labels =>
      have headLegal := legal label List.mem_cons_self
      obtain ⟨first, others, rfl⟩ :=
        List.exists_cons_of_ne_nil
          (List.length_pos_iff.mp headLegal.nonempty)
      intro leading
      exact
        headLegal.noDot first List.mem_cons_self (Option.some.inj leading)

theorem isChain_nameText
    {labels : List Bytes}
    (legal : ∀ label, label ∈ labels → LegalLabel label) :
    (nameText labels).IsChain fun first second =>
      ¬ (first = 46 ∧ second = 46) := by
  induction labels with
  | nil => exact List.IsChain.nil
  | cons label labels inductionHypothesis =>
      have headLegal := legal label List.mem_cons_self
      have tailLegal :
          ∀ other, other ∈ labels → LegalLabel other :=
        fun other member => legal other (List.mem_cons_of_mem label member)
      rw [nameText]
      apply List.isChain_append.mpr
      refine ⟨isChain_of_noDot headLegal.noDot, ?_, ?_⟩
      · apply List.isChain_cons.mpr
        refine ⟨?_, inductionHypothesis tailLegal⟩
        intro second isHead given
        obtain ⟨-, rfl⟩ := given
        exact head?_nameText_ne tailLegal isHead
      · rintro first isLast second - ⟨rfl, -⟩
        exact
          headLegal.noDot 46 (List.mem_of_getLast? isLast) rfl

theorem rebuildable_text (name : LegalName) : Rebuildable name.text where
  noNul := nameText_noNul name.legal
  noLeadingDot := head?_nameText_ne name.legal
  noDoubleDot := isChain_nameText name.legal
  fewDots := by
    rw [LegalName.text,
      count_nameText fun label member => (name.legal label member).noDot]
    exact name.count

theorem mem_nameText_of_mem
    {labels : List Bytes} {label : Bytes} {character : UInt8}
    (isLabel : label ∈ labels) (member : character ∈ label) :
    character ∈ nameText labels := by
  induction labels with
  | nil => cases isLabel
  | cons first others inductionHypothesis =>
      rw [nameText]
      rcases List.mem_cons.mp isLabel with rfl | later
      · exact List.mem_append_left _ member
      · exact
          List.mem_append_right _
            (List.mem_cons_of_mem _ (inductionHypothesis later))

/-- A parsed name that is rebuildable is the text of a legal name. -/
theorem exists_legalName
    {name : Bytes} (parsed : ParsedName name)
    (rebuildable : Rebuildable name) :
    ∃ legal : LegalName, legal.text = name := by
  obtain ⟨⟨pieces, short, rfl⟩, nonempty, fits⟩ := parsed
  have filled :=
    pieces_nonempty rebuildable.noLeadingDot rebuildable.noDoubleDot
  have legal :
      ∀ piece, piece ∈ pieces → LegalLabel piece := by
    intro piece member
    exact
      { nonempty := List.length_pos_iff.mpr (filled piece member)
        short := (short piece member).1
        noDot := (short piece member).2
        noNul := fun character inside =>
          rebuildable.noNul character (mem_nameText_of_mem member inside) }
  have few := rebuildable.fewDots
  rw [count_nameText fun piece member => (short piece member).2] at few
  have some : pieces ≠ [] := by
    intro same
    subst same
    exact nonempty rfl
  exact ⟨⟨pieces, legal, some, few, Nat.lt_succ_iff.mp fits⟩, rfl⟩

/-! ## What the builder leaves -/

theorem Aligned.append
    {first second : Bytes} (left : Aligned first) (right : Aligned second) :
    Aligned (first ++ second) := by
  induction left with
  | nil => exact right
  | root more => exact .root _
  | label legal _ inductionHypothesis =>
      rw [List.cons_append, List.append_assoc]
      exact .label legal inductionHypothesis

theorem Aligned.singleton {label : Bytes} (legal : LegalLabel label) :
    Aligned (label.length.toUInt8 :: label) := by
  have aligned := Aligned.label legal .nil
  rw [List.append_nil] at aligned
  exact aligned

namespace DnsBuilder.Appends

theorem refl {b : DnsBuilder} (inside : b.pos ≤ b.buf.length) :
    b.Appends [] b where
  size := rfl
  written := (List.append_nil _).symm
  pos := rfl
  inside := inside

theorem trans
    {first second third : DnsBuilder} {chunk more : Bytes}
    (left : first.Appends chunk second)
    (right : second.Appends more third) :
    first.Appends (chunk ++ more) third where
  size := right.size.trans left.size
  written := by rw [right.written, left.written, List.append_assoc]
  pos := by
    rw [right.pos, left.pos, List.length_append]
    omega
  inside := right.inside

theorem put
    {b : DnsBuilder} {bytes : Bytes}
    (room : b.pos + bytes.length ≤ b.buf.length) :
    b.Appends bytes (b.put bytes) where
  size := put_buf_length b bytes
  written := written_put room
  pos := put_pos b bytes
  inside := by
    rw [put_pos, put_buf_length]
    exact room

end DnsBuilder.Appends

open DnsBuilder

theorem length_written
    {b : DnsBuilder} (inside : b.pos ≤ b.buf.length) :
    b.written.length = b.pos := by
  rw [DnsBuilder.written, List.length_take]
  exact Nat.min_eq_left inside

/-- The label that a pass of the loop writes. -/
theorem aligned_piece
    {start : Bytes} (noNul : ∀ character, character ∈ start → character ≠ 0)
    (short :
      (start.takeWhile (· ≠ 46)).length ≤ dnsMaxLabelLen) :
    Aligned
      ((start.takeWhile (· ≠ 46)).length.toUInt8 ::
        start.takeWhile (· ≠ 46)) := by
  by_cases empty : start.takeWhile (· ≠ 46) = []
  · rw [empty]
    exact .root []
  · apply Aligned.singleton
    exact
      { nonempty := List.length_pos_iff.mpr empty
        short := short
        noDot := by
          intro character member
          have holds := List.mem_takeWhile_imp member
          simpa using holds
        noNul := fun character member =>
          noNul character ((List.takeWhile_sublist _).subset member) }

theorem appends_writeLabels
    {fuel : Nat} {b : DnsBuilder} {start : Bytes}
    (noNul : ∀ character, character ∈ start → character ≠ 0)
    (inside : b.pos ≤ b.buf.length) :
    ∃ chunk,
      Aligned chunk ∧ b.Appends chunk (writeLabels fuel b start).2 := by
  induction fuel generalizing b start with
  | zero => exact ⟨[], .nil, .refl inside⟩
  | succ fuel inductionHypothesis =>
      rw [writeLabels]
      simp only
      split
      · exact ⟨[], .nil, .refl inside⟩
      · split
        · exact ⟨[], .nil, .refl inside⟩
        · rename_i short
          split
          · exact ⟨[], .nil, .refl inside⟩
          · rename_i enough
            rw [ensure_eq_false, Nat.not_lt] at enough
            have piece := aligned_piece noNul (Nat.not_lt.mp short)
            generalize start.takeWhile (· ≠ 46) = label at enough piece ⊢
            have both :
                (b.put [label.length.toUInt8]).put label =
                  b.put (label.length.toUInt8 :: label) :=
              put_put (by simpa using enough)
            have here :
                b.Appends (label.length.toUInt8 :: label)
                  (b.put (label.length.toUInt8 :: label)) :=
              .put (by
                rw [List.length_cons]
                omega)
            have restNoNul :
                ∀ character,
                  character ∈
                      (if (start.drop label.length).head? = some 46 then
                        (start.drop label.length).tail
                      else start.drop label.length) →
                    character ≠ 0 := by
              intro character member
              apply noNul
              split at member
              · exact List.mem_of_mem_drop (List.mem_of_mem_tail member)
              · exact List.mem_of_mem_drop member
            rw [both]
            obtain ⟨chunk, aligned, appends⟩ :=
              inductionHypothesis restNoNul here.inside
            exact ⟨_, piece.append aligned, here.trans appends⟩

/-- A name that is written is closed by its root byte; one that is not leaves
some of its labels. -/
theorem appends_writeNameUncompressed
    {b : DnsBuilder} (inside : b.pos ≤ b.buf.length) (name : Bytes) :
    ∃ chunk after,
      Aligned chunk ∧
        ((writeNameUncompressed b name = (false, after) ∧
            b.Appends chunk after) ∨
          (writeNameUncompressed b name = (true, after) ∧
            b.Appends (chunk ++ [0]) after)) := by
  have noNul :
      ∀ character, character ∈ content name → character ≠ 0 :=
    fun character member => ne_zero_of_mem_content member
  obtain ⟨chunk, aligned, appends⟩ :=
    @appends_writeLabels (content name).length b (content name) noNul
      inside
  unfold writeNameUncompressed
  simp only
  split
  · exact ⟨[], b, .nil, Or.inl ⟨rfl, .refl inside⟩⟩
  · split
    · rename_i after result
      rw [result] at appends
      exact ⟨chunk, after, aligned, Or.inl ⟨rfl, appends⟩⟩
    · rename_i after result
      rw [result] at appends
      split
      · exact ⟨chunk, after, aligned, Or.inl ⟨rfl, appends⟩⟩
      · rename_i enough
        rw [ensure_eq_false, Nat.not_lt] at enough
        exact
          ⟨chunk, _, aligned, Or.inr ⟨rfl, appends.trans (.put enough)⟩⟩

theorem appends_dnsBuildQuestion
    {b : DnsBuilder} (inside : b.pos ≤ b.buf.length) (qname : Bytes)
    (qtype qclass : UInt16) :
    ∃ chunk,
      Aligned chunk ∧
        b.Appends chunk (dnsBuildQuestion b qname qtype qclass).2 := by
  obtain ⟨chunk, after, aligned, ⟨result, appends⟩ | ⟨result, appends⟩⟩ :=
    appends_writeNameUncompressed inside qname
  · rw [dnsBuildQuestion]
    rw [result]
    exact ⟨chunk, aligned, appends⟩
  · rw [dnsBuildQuestion]
    rw [result]
    simp only
    split
    · exact ⟨_, aligned.append (.root []), appends⟩
    · rename_i enough
      rw [ensure_eq_false, Nat.not_lt] at enough
      have fields :
          (after.put (bytes16 qtype)).put (bytes16 qclass) =
            after.put (bytes16 qtype ++ bytes16 qclass) :=
        put_put (by simpa using enough)
      rw [fields]
      have all :=
        appends.trans
          (.put (by simpa using enough :
            after.pos + (bytes16 qtype ++ bytes16 qclass).length ≤
              after.buf.length))
      rw [List.append_assoc] at all
      exact ⟨_, aligned.append (.root _), all⟩

theorem appends_dnsBuildRr_of_name
    {b after : DnsBuilder} {name : Bytes}
    (named : writeNameUncompressed b name = (true, after))
    (inside : after.pos ≤ after.buf.length) (type rrclass : UInt16)
    (ttl : UInt32) (rdata : Bytes) (rdlength : UInt16) :
    ∃ more,
      after.Appends more
        (dnsBuildRr b name type rrclass ttl rdata rdlength).2 := by
  rw [dnsBuildRr]
  rw [named]
  simp only
  split
  · exact ⟨[], .refl inside⟩
  · rename_i enough
    rw [ensure_eq_false, Nat.not_lt] at enough
    have copied :
        (rdata.take rdlength.toNat).length ≤ rdlength.toNat :=
      List.length_take_le _ _
    have fields :
        (((after.put (bytes16 type)).put (bytes16 rrclass)).put
            (bytes32 ttl)).put (bytes16 rdlength) =
          after.put
            (bytes16 type ++
              (bytes16 rrclass ++ (bytes32 ttl ++ bytes16 rdlength))) := by
      simp (disch :=
          (simp only [put_pos, put_buf_length, List.length_append,
            bytes16_length, bytes32_length]; omega)) only
        [put_put, List.append_assoc]
    have fixed :
        after.Appends
          (bytes16 type ++
            (bytes16 rrclass ++ (bytes32 ttl ++ bytes16 rdlength)))
          (after.put
            (bytes16 type ++
              (bytes16 rrclass ++ (bytes32 ttl ++ bytes16 rdlength)))) :=
      .put (by
        simp only [List.length_append, bytes16_length, bytes32_length]
        omega)
    rw [fields]
    split
    · exact ⟨_, fixed⟩
    · exact
        ⟨_, fixed.trans
          (.put (by
            rw [fixed.pos, fixed.size]
            simp only [List.length_append, bytes16_length, bytes32_length]
            omega : _ + (rdata.take rdlength.toNat).length ≤ _))⟩

theorem appends_dnsBuildRr
    {b : DnsBuilder} (inside : b.pos ≤ b.buf.length) (name : Bytes)
    (type rrclass : UInt16) (ttl : UInt32) (rdata : Bytes)
    (rdlength : UInt16) :
    ∃ chunk,
      Aligned chunk ∧
        b.Appends chunk
          (dnsBuildRr b name type rrclass ttl rdata rdlength).2 := by
  obtain ⟨chunk, after, aligned, ⟨result, appends⟩ | ⟨result, appends⟩⟩ :=
    appends_writeNameUncompressed inside name
  · rw [dnsBuildRr]
    rw [result]
    exact ⟨chunk, aligned, appends⟩
  · obtain ⟨more, continues⟩ :=
      appends_dnsBuildRr_of_name result appends.inside type rrclass ttl
        rdata rdlength
    have all := appends.trans continues
    rw [List.append_assoc] at all
    exact ⟨_, aligned.append (.root _), all⟩

/-! ## Reading what the builder leaves -/

theorem readNameLoop_aligned
    {outLen : Nat} {stream : Bytes} (aligned : Aligned stream) :
    ∀ {loops stop : Nat} {before out name : Bytes},
      readNameLoop (before ++ stream) outLen loops before.length out none =
          .ok (name, stop) →
        ∃ labels tail,
          (∀ label, label ∈ labels → LegalLabel label) ∧
            labels.length < loops ∧
              stream = labelBytes labels ++ 0 :: tail ∧
                stop = before.length + (labelBytes labels).length + 1 ∧
                  name =
                    if out ++ nameText labels = [] then [46]
                    else out ++ nameText labels := by
  induction aligned with
  | nil =>
      intro loops stop before out name read
      cases loops with
      | zero => cases read
      | succ loops =>
          rw [readNameLoop] at read
          obtain ⟨step, isStep, -⟩ := bind_eq_ok.mp read
          unfold nameStep at isStep
          rw [if_pos (by simp)] at isStep
          cases isStep
  | root more =>
      intro loops stop before out name read
      cases loops with
      | zero => cases read
      | succ loops =>
          rw [readNameLoop, nameStep_root] at read
          obtain ⟨step, isStep, passed⟩ := bind_eq_ok.mp read
          cases isStep
          obtain ⟨finished, isFinished, same⟩ := bind_eq_ok.mp passed
          cases same
          refine
            ⟨[], more, by simp, Nat.succ_pos loops, rfl, rfl, ?_⟩
          rw [finishName_eq_ok isFinished, nameText, List.append_nil]
  | @label label rest legal _ inductionHypothesis =>
      intro loops stop before out name read
      cases loops with
      | zero => cases read
      | succ loops =>
          rw [readNameLoop_label legal.wire] at read
          split at read
          · cases read
          · have place :
                (before ++ label.length.toUInt8 :: label).length =
                  before.length + 1 + label.length := by
              rw [List.length_append, List.length_cons]
              omega
            obtain ⟨labels, tail, others, few, isRest, isStop, isName⟩ :=
              inductionHypothesis read
            refine
              ⟨label :: labels, tail, ?_, Nat.succ_lt_succ few, ?_, ?_,
                ?_⟩
            · intro other member
              rcases List.mem_cons.mp member with rfl | later
              · exact legal
              · exact others other later
            · rw [isRest, labelBytes, List.cons_append, List.append_assoc]
            · rw [isStop, place, labelBytes, List.length_cons,
                List.length_append]
              omega
            · rw [isName, nameText, List.append_assoc, List.append_assoc,
                List.singleton_append]

/-- A name that the builder has left is read as the root or as a legal
name. -/
theorem readName_aligned
    {stream : Bytes} (aligned : Aligned stream) {before name : Bytes}
    {stop : Nat}
    (read :
      readName (before ++ stream) dnsMaxNameLen before.length =
        .ok (name, stop)) :
    (name = [46] ∧ stop = before.length + 1 ∧
        ∃ tail, stream = 0 :: tail) ∨
      ∃ legal : LegalName,
        name = legal.text ∧ stop = before.length + legal.encode.length ∧
          ∃ tail, stream = legal.encode ++ tail := by
  have short := (readName_ok two_le_dnsMaxNameLen read).1
  obtain ⟨labels, tail, legal, few, isStream, isStop, isName⟩ :=
    readNameLoop_aligned aligned read
  rw [List.nil_append] at isName
  cases labels with
  | nil => exact Or.inl ⟨isName, isStop, tail, isStream⟩
  | cons label labels =>
      have nonempty : nameText (label :: labels) ≠ [] := by
        simp [nameText]
      rw [if_neg nonempty] at isName
      rw [isName] at short
      refine
        Or.inr
          ⟨⟨label :: labels, legal, List.cons_ne_nil _ _,
              Nat.lt_succ_iff.mp few, Nat.lt_succ_iff.mp short⟩,
            isName, ?_, tail, ?_⟩
      · rw [isStop, LegalName.encode, encodeName, List.length_append]
        rfl
      · rw [isStream, LegalName.encode, encodeName, List.append_assoc]
        rfl

/-! ## Questions built again -/

/-- The question is built and read back as it was, to its last byte. -/
def Survives (question : DnsQuestion) (buffer : Bytes) : Prop :=
  let built :=
    dnsBuildQuestion (dnsBuilderInit buffer) question.qname question.qtype
      question.qclass
  built.1 = true ∧
    readQuestion built.2.written 0 =
      .ok (question, built.2.written.length)

theorem survives_legal
    {question : DnsQuestion} {legal : LegalName}
    (isName : legal.text = question.qname) {buffer : Bytes}
    (room : question.qname.length + 5 ≤ buffer.length) :
    Survives question buffer := by
  have size := legal.encode_length
  rw [isName] at size
  have fits :
      (QuestionSpec.mk legal question.qtype question.qclass).encode.length ≤
        buffer.length := by
    simp only [QuestionSpec.encode, List.length_append, bytes16_length]
    omega
  have built :=
    @buildQuestion_eq ⟨legal, question.qtype, question.qclass⟩
      (dnsBuilderInit buffer) (by
        rw [dnsBuilderInit, Nat.zero_add]
        exact fits)
  have written :=
    @written_put (dnsBuilderInit buffer)
      (QuestionSpec.mk legal question.qtype question.qclass).encode (by
        rw [dnsBuilderInit, Nat.zero_add]
        exact fits)
  have read :=
    readQuestion_encode [] []
      ⟨legal, question.qtype, question.qclass⟩
  rw [List.append_nil, List.nil_append, List.length_nil,
    Nat.zero_add] at read
  unfold buildQuestion at built
  rw [Survives, ← isName]
  simp only at built ⊢
  rw [built, written]
  refine ⟨rfl, read.trans ?_⟩
  rw [QuestionSpec.parsed]
  simp only
  rw [isName]
  rfl

/-- The root is written with a second root byte. -/
theorem writeNameUncompressed_root
    {b : DnsBuilder} (room : b.pos + 2 ≤ b.buf.length) :
    writeNameUncompressed b [46] = (true, b.put [0, 0]) := by
  have first : ¬ b.ensure 1 = false := not_ensure_eq_false (by omega)
  have joined : (b.put [0]).put [0] = b.put [0, 0] := put_put (by simpa)
  have nothing : (b.put [0]).put [] = b.put [0] :=
    DnsBuilder.put_nil (by
      rw [put_pos, put_buf_length]
      simp only [List.length_singleton]
      omega)
  have second : ¬ (b.put [0]).ensure 1 = false :=
    not_ensure_eq_false (by
      rw [put_pos, put_buf_length]
      simp only [List.length_singleton]
      omega)
  have loop : writeLabels 1 b [46] = (true, b.put [0]) := by
    rw [writeLabels, if_neg (List.cons_ne_nil _ _)]
    simp [first, nothing, writeLabels, dnsMaxLabelLen]
  have text : content [46] = [46] := by decide
  rw [writeNameUncompressed]
  simp only [text]
  rw [if_neg (List.cons_ne_nil _ _)]
  have length : ([46] : Bytes).length = 1 := rfl
  rw [length, loop]
  simp only
  rw [if_neg second, joined]

theorem dnsBuildQuestion_root
    {b : DnsBuilder} (room : b.pos + 6 ≤ b.buf.length)
    (qtype qclass : UInt16) :
    dnsBuildQuestion b [46] qtype qclass =
      (true,
        b.put ([0, 0] ++ (bytes16 qtype ++ bytes16 qclass))) := by
  rw [dnsBuildQuestion]
  rw [writeNameUncompressed_root (by omega)]
  simp only
  rw [if_neg (not_ensure_eq_false (by
    rw [put_pos, put_buf_length]
    simp only [List.length_cons, List.length_nil]
    omega))]
  simp (disch :=
      (simp only [put_pos, put_buf_length, List.length_append,
        bytes16_length, List.length_cons, List.length_nil]; omega)) only
    [put_put, List.append_assoc]

/-- A question of an accepted packet survives exactly when its name is
rebuildable. -/
theorem survives_iff_rebuildable
    (packet : Bytes) (msg : DnsMessage) (question : DnsQuestion)
    (buffer : Bytes) (parsed : dnsParseMessage packet = .ok msg)
    (member : question ∈ msg.questions)
    (room : question.qname.length + 5 ≤ buffer.length) :
    Survives question buffer ↔ Rebuildable question.qname := by
  have isParsed := parsedName_of_dnsParseMessage parsed member
  constructor
  · intro given
    obtain ⟨-, read⟩ := given
    obtain ⟨chunk, aligned, appends⟩ :=
      @appends_dnsBuildQuestion (dnsBuilderInit buffer) (Nat.zero_le _)
        question.qname question.qtype question.qclass
    obtain ⟨middle, readsName, -, -, isStop⟩ := readQuestion_eq_ok read
    rw [appends.written] at readsName isStop
    rcases
      @readName_aligned chunk aligned (dnsBuilderInit buffer).written
        question.qname middle readsName with
      ⟨isRoot, atRoot, -⟩ | ⟨legal, isLegal, -⟩
    · -- the second root byte is left over
      have size : (dnsBuilderInit buffer).pos + 6 ≤ buffer.length := by
        rw [isRoot] at room
        exact (Nat.zero_add 6).le.trans room
      have built :=
        @dnsBuildQuestion_root (dnsBuilderInit buffer) size question.qtype
          question.qclass
      rw [isRoot] at appends
      rw [built] at appends
      have length := appends.pos
      rw [put_pos] at length
      simp only [List.length_append, List.length_cons, List.length_nil,
        bytes16_length] at length
      rw [List.length_append, atRoot] at isStop
      omega
    · rw [isLegal]
      exact rebuildable_text legal
  · intro rebuildable
    obtain ⟨legal, isName⟩ := exists_legalName isParsed rebuildable
    exact survives_legal isName room

/-- The parser accepts a query for `a.`, and its question survives. -/
theorem survives_iff_rebuildable_a :
    Survives ⟨[97, 46], 1, 1⟩ (List.replicate 7 0) := by
  have parsed :
      dnsParseMessage
          [0, 7, 1, 0, 0, 1, 0, 0, 0, 0, 0, 0, 1, 97, 0, 0, 1, 0, 1] =
        .ok ⟨⟨7, 256, 1, 0, 0, 0⟩, [⟨[97, 46], 1, 1⟩], [], [], []⟩ := by
    decide +kernel
  exact
    (survives_iff_rebuildable _ _ ⟨[97, 46], 1, 1⟩ (List.replicate 7 0)
      parsed List.mem_cons_self (by
        rw [List.length_replicate]
        decide)).mpr
      ⟨by simp, by decide, by simp, by decide⟩

/-- Every question of an accepted packet would survive in a buffer that has
room for it. -/
def QuestionsSurvive : Prop :=
  ∀ (packet : Bytes) (msg : DnsMessage) (question : DnsQuestion)
    (buffer : Bytes),
    dnsParseMessage packet = .ok msg →
      question ∈ msg.questions →
        question.qname.length + 16 ≤ buffer.length →
          Survives question buffer

/-- The question for the root does not. -/
theorem not_questionsSurvive : ¬ QuestionsSurvive := by
  intro survive
  have parsed :
      dnsParseMessage
          [0, 7, 1, 0, 0, 1, 0, 0, 0, 0, 0, 0, 0, 0, 2, 0, 1] =
        .ok ⟨⟨7, 256, 1, 0, 0, 0⟩, [⟨[46], 2, 1⟩], [], [], []⟩ := by
    decide +kernel
  have root :=
    (survive _ _ ⟨[46], 2, 1⟩ (List.replicate 512 0) parsed
      List.mem_cons_self (by
        rw [List.length_replicate]
        decide)).2
  have other :
      readQuestion
          (dnsBuildQuestion (dnsBuilderInit (List.replicate 512 0)) [46] 2
            1).2.written 0 =
        .ok (⟨[46], 0, 512⟩, 5) := by
    decide +kernel
  simp only at root
  rw [other] at root
  cases root

end DnsFirewall
