import DnsFirewall.Wire.LegalName

/-!
# What a failed build leaves behind

`write_name_uncompressed` moves the position label by label, and the functions
that call it test the room for the fixed fields only afterwards.  A failure
leaves the builder as it was only if it comes before the first label.
-/

namespace DnsFirewall

open CString DnsBuilder BigEndian

/-! ## The room for a name -/

/-- The octets of the labels of a text: a dot stands for the length of the
label before it, and a last label without a dot has a length as well. -/
def labelsSize (text : Bytes) : Nat :=
  match text.getLast? with
  | none => 0
  | some last => if last = 46 then text.length else text.length + 1

def ShortLabels (text : Bytes) : Prop :=
  ∀ label, label ∈ text.splitOn 46 → label.length ≤ dnsMaxLabelLen

theorem labelsSize_undotted
    {label : Bytes} (nonempty : label ≠ [])
    (noDot : ∀ character, character ∈ label → character ≠ 46) :
    labelsSize label = label.length + 1 := by
  rw [labelsSize]
  rw [List.getLast?_eq_some_getLast nonempty]
  exact if_neg (noDot _ (List.getLast_mem nonempty))

theorem labelsSize_dotted (label rest : Bytes) :
    labelsSize (label ++ 46 :: rest) =
      label.length + 1 + labelsSize rest := by
  unfold labelsSize
  rw [List.getLast?_append, List.getLast?_cons]
  cases ends : rest.getLast? with
  | none =>
      rw [List.getLast?_eq_none_iff.mp ends]
      simp
  | some last =>
      simp only [Option.getD_some, Option.some_or, List.length_append,
        List.length_cons]
      split
      · omega
      · omega

theorem shortLabels_undotted
    {label : Bytes}
    (noDot : ∀ character, character ∈ label → character ≠ 46) :
    ShortLabels label ↔ label.length ≤ dnsMaxLabelLen := by
  have absent : (46 : UInt8) ∉ label := fun member => noDot 46 member rfl
  rw [ShortLabels]
  rw [List.splitOn_eq_singleton absent]
  simp

theorem shortLabels_dotted
    {label : Bytes}
    (noDot : ∀ character, character ∈ label → character ≠ 46)
    (rest : Bytes) :
    ShortLabels (label ++ 46 :: rest) ↔
      label.length ≤ dnsMaxLabelLen ∧ ShortLabels rest := by
  have absent : (46 : UInt8) ∉ label := fun member => noDot 46 member rfl
  unfold ShortLabels
  rw [List.splitOn_append_cons_self_of_not_mem absent]
  simp

/-- A text has no dot, or a first one. -/
theorem dotted_or_undotted (text : Bytes) :
    (∀ character, character ∈ text → character ≠ 46) ∨
      ∃ label rest,
        text = label ++ 46 :: rest ∧
          ∀ character, character ∈ label → character ≠ 46 := by
  by_cases dot : (46 : UInt8) ∈ text
  · obtain ⟨label, rest, same, absent⟩ := List.eq_append_cons_of_mem dot
    refine Or.inr ⟨label, rest, same, ?_⟩
    intro character member same
    subst same
    exact absent member
  · refine Or.inl ?_
    intro character member same
    subst same
    exact dot member

/-- One pass of the loop on a text without a dot. -/
theorem writeLabels_undotted
    {label : Bytes} (nonempty : label ≠ [])
    (noDot : ∀ character, character ∈ label → character ≠ 46)
    (fuel : Nat) (b : DnsBuilder) :
    writeLabels (fuel + 1) b label =
      if dnsMaxLabelLen < label.length then (false, b)
      else if b.ensure (1 + label.length) = false then (false, b)
      else
        writeLabels fuel ((b.put [label.length.toUInt8]).put label) [] := by
  have whole : label.takeWhile (· ≠ 46) = label := by
    apply List.takeWhile_eq_self_iff.mpr
    intro character member
    simpa using noDot character member
  rw [writeLabels, if_neg nonempty]
  simp only [whole, List.drop_length, List.head?_nil]
  rfl

theorem writeLabels_nil (fuel : Nat) (b : DnsBuilder) :
    writeLabels fuel b [] = (true, b) := by
  cases fuel with
  | zero => rfl
  | succ fuel => exact if_pos rfl

/-! ## When a name is written -/

@[simp]
theorem writeLabels_buf_length
    (fuel : Nat) (b : DnsBuilder) (start : Bytes) :
    (writeLabels fuel b start).2.buf.length = b.buf.length := by
  induction fuel generalizing b start with
  | zero => rfl
  | succ fuel inductionHypothesis =>
      rw [writeLabels]
      simp only
      split
      · rfl
      · split
        · rfl
        · split
          · rfl
          · rw [inductionHypothesis, put_buf_length, put_buf_length]

/-- The loop has written the whole text, or has failed for a long label or for
want of room. -/
structure LabelsWritten (b : DnsBuilder) (text : Bytes)
    (result : Bool × DnsBuilder) : Prop where
  whole :
    result.1 = true ↔
      ShortLabels text ∧
        (text = [] ∨ b.pos + labelsSize text ≤ b.buf.length)
  pos : result.1 = true → result.2.pos = b.pos + labelsSize text

theorem LabelsWritten.nil (b : DnsBuilder) :
    LabelsWritten b [] (true, b) where
  whole := by simp [ShortLabels]
  pos _ := rfl

/-- A pass takes one label off the text. -/
theorem LabelsWritten.pass
    {b : DnsBuilder} {text label rest : Bytes}
    {result : Bool × DnsBuilder} (nonempty : text ≠ [])
    (size : labelsSize text = label.length + 1 + labelsSize rest)
    (short :
      ShortLabels text ↔
        label.length ≤ dnsMaxLabelLen ∧ ShortLabels rest)
    (written :
      LabelsWritten ((b.put [label.length.toUInt8]).put label) rest
        result) :
    LabelsWritten b text
      (if dnsMaxLabelLen < label.length then (false, b)
      else if b.ensure (1 + label.length) = false then (false, b)
      else result) := by
  obtain ⟨whole, pos⟩ := written
  simp only [put_pos, put_buf_length, List.length_singleton] at whole pos
  split
  · rename_i long
    refine ⟨iff_of_false Bool.false_ne_true ?_, fun done => by cases done⟩
    intro fits
    have labelShort := (short.mp fits.1).1
    omega
  · rename_i within
    split
    · rename_i full
      rw [ensure_eq_false] at full
      refine ⟨iff_of_false Bool.false_ne_true ?_, fun done => by cases done⟩
      intro fits
      have room := fits.2.resolve_left nonempty
      omega
    · rename_i enough
      rw [ensure_eq_false, Nat.not_lt] at enough
      constructor
      · rw [whole, short]
        constructor
        · intro given
          obtain ⟨restShort, room⟩ := given
          refine ⟨⟨Nat.not_lt.mp within, restShort⟩, Or.inr ?_⟩
          rcases room with rfl | room
          · have nothing : labelsSize [] = 0 := rfl
            omega
          · omega
        · intro given
          obtain ⟨⟨_, restShort⟩, room⟩ := given
          have room := room.resolve_left nonempty
          exact ⟨restShort, Or.inr (by omega)⟩
      · intro done
        rw [pos done]
        omega

theorem writeLabels_written
    (fuel : Nat) (b : DnsBuilder) (text : Bytes)
    (enough : text.length ≤ fuel) :
    LabelsWritten b text (writeLabels fuel b text) := by
  induction fuel generalizing b text with
  | zero =>
      obtain rfl : text = [] := List.length_eq_zero_iff.mp (by omega)
      exact .nil b
  | succ fuel inductionHypothesis =>
      rcases dotted_or_undotted text with noDot | ⟨label, rest, rfl, noDot⟩
      · by_cases empty : text = []
        · rw [empty, writeLabels_nil]
          exact .nil b
        · rw [writeLabels_undotted empty noDot]
          refine .pass empty ?_ ?_ (inductionHypothesis _ [] (by simp))
          · rw [labelsSize_undotted empty noDot]
            rfl
          · rw [shortLabels_undotted noDot]
            simp [ShortLabels]
      · rw [writeLabels_dotted noDot]
        simp only [List.length_append, List.length_cons] at enough
        exact
          .pass (by simp) (labelsSize_dotted label rest)
            (shortLabels_dotted noDot rest)
            (inductionHypothesis _ rest (by omega))

/-! ## When a build succeeds -/

/-- The name and the `behind` octets of fixed fields and data fit. -/
structure Fits (b : DnsBuilder) (name : Bytes) (behind : Nat) : Prop where
  short : ShortLabels (content name)
  room :
    b.pos + (labelsSize (content name) + 1 + behind) ≤ b.buf.length

/-- The loop of `write_name_uncompressed` never gets past its first label. -/
def NothingWritten (b : DnsBuilder) (name : Bytes) : Prop :=
  let first := (content name).takeWhile (· ≠ 46)
  content name = [] ∨ dnsMaxLabelLen < first.length ∨
    b.buf.length < b.pos + (1 + first.length)

/-- The name that fits is written whole. -/
theorem writeNameUncompressed_ok_iff (b : DnsBuilder) (name : Bytes) :
    (writeNameUncompressed b name).1 = true ↔
      content name ≠ [] ∧ Fits b name 0 := by
  have labels :=
    writeLabels_written (content name).length b (content name)
      (Nat.le_refl _)
  have size :=
    writeLabels_buf_length (content name).length b (content name)
  obtain ⟨whole, pos⟩ := labels
  unfold writeNameUncompressed
  simp only
  split
  · rename_i empty
    exact iff_of_false Bool.false_ne_true (fun fits => fits.1 empty)
  · rename_i filled
    split
    · rename_i after result
      rw [result] at whole
      refine iff_of_false Bool.false_ne_true (fun fits => ?_)
      have room := fits.2.room
      have done := whole.mpr ⟨fits.2.short, Or.inr (by omega)⟩
      cases done
    · rename_i after result
      rw [result] at whole pos size
      have labelsFit := whole.mp rfl
      have moved := pos rfl
      simp only at moved size
      split
      · rename_i full
        rw [ensure_eq_false] at full
        refine iff_of_false Bool.false_ne_true (fun fits => ?_)
        have room := fits.2.room
        omega
      · rename_i enough
        rw [ensure_eq_false, Nat.not_lt] at enough
        exact
          iff_of_true rfl ⟨filled, labelsFit.1, by omega⟩

/-- Behind a name that was written stands the room that is left. -/
theorem writeNameUncompressed_after
    {b after : DnsBuilder} {name : Bytes}
    (named : writeNameUncompressed b name = (true, after)) :
    after.pos = b.pos + (labelsSize (content name) + 1) ∧
      after.buf.length = b.buf.length := by
  have labels :=
    (writeLabels_written (content name).length b (content name)
      (Nat.le_refl _)).pos
  have size :=
    writeLabels_buf_length (content name).length b (content name)
  unfold writeNameUncompressed at named
  simp only at named
  split at named
  · cases named
  · split at named
    · cases named
    · rename_i written result
      rw [result] at labels size
      have moved : written.pos = b.pos + labelsSize (content name) :=
        labels rfl
      split at named
      · cases named
      · cases named
        simp only [put_pos, put_buf_length, List.length_singleton]
        exact ⟨by omega, size⟩

theorem not_fits_of_name
    {b after : DnsBuilder} {name : Bytes}
    (named : writeNameUncompressed b name = (false, after)) (behind : Nat) :
    ¬ (content name ≠ [] ∧ Fits b name behind) := by
  intro given
  obtain ⟨filled, fits⟩ := given
  have room := fits.room
  have done :=
    (writeNameUncompressed_ok_iff b name).mpr
      ⟨filled, fits.short, by omega⟩
  rw [named] at done
  cases done

theorem ensure_behind_name
    {b after : DnsBuilder} {name : Bytes}
    (named : writeNameUncompressed b name = (true, after)) (behind : Nat) :
    after.ensure behind = false ↔
      ¬ (content name ≠ [] ∧ Fits b name behind) := by
  obtain ⟨pos, size⟩ := writeNameUncompressed_after named
  have done : (writeNameUncompressed b name).1 = true := by rw [named]
  obtain ⟨filled, fits⟩ := (writeNameUncompressed_ok_iff b name).mp done
  rw [ensure_eq_false, pos, size]
  constructor
  · intro full given
    obtain ⟨-, whole⟩ := given
    have room := whole.room
    omega
  · intro crowded
    by_contra enough
    exact crowded ⟨filled, fits.short, by omega⟩

theorem dnsBuildQuestion_ok_iff
    (b : DnsBuilder) (qname : Bytes) (qtype qclass : UInt16) :
    (dnsBuildQuestion b qname qtype qclass).1 = true ↔
      content qname ≠ [] ∧ Fits b qname 4 := by
  rw [dnsBuildQuestion]
  split
  · rename_i after named
    exact iff_of_false Bool.false_ne_true (not_fits_of_name named 4)
  · rename_i after named
    have room := ensure_behind_name named 4
    split
    · rename_i crowded
      exact iff_of_false Bool.false_ne_true (room.mp crowded)
    · rename_i enough
      exact iff_of_true rfl (not_not.mp (mt room.mpr enough))

theorem dnsBuildRr_ok_iff
    (b : DnsBuilder) (name : Bytes) (type rrclass : UInt16)
    (ttl : UInt32) (rdata : Bytes) (rdlength : UInt16) :
    (dnsBuildRr b name type rrclass ttl rdata rdlength).1 = true ↔
      content name ≠ [] ∧ Fits b name (10 + rdlength.toNat) := by
  rw [dnsBuildRr]
  split
  · rename_i after named
    exact iff_of_false Bool.false_ne_true (not_fits_of_name named _)
  · rename_i after named
    have room := ensure_behind_name named (10 + rdlength.toNat)
    split
    · rename_i crowded
      exact iff_of_false Bool.false_ne_true (room.mp crowded)
    · rename_i enough
      have fits := not_not.mp (mt room.mpr enough)
      simp only
      split
      · exact iff_of_true rfl fits
      · exact iff_of_true rfl fits

/-! ## What a failure leaves -/

/-- A failure leaves the position and the bytes in front of it alone. -/
def LeavesAsBefore (b : DnsBuilder) (result : Bool × DnsBuilder) : Prop :=
  result.1 = false →
    result.2.pos = b.pos ∧ result.2.buf.take b.pos = b.buf.take b.pos

/-- A name that fails before its first label leaves the builder alone. -/
theorem writeNameUncompressed_of_nothing
    {b : DnsBuilder} {name : Bytes} (nothing : NothingWritten b name) :
    writeNameUncompressed b name = (false, b) := by
  unfold writeNameUncompressed
  simp only
  by_cases empty : content name = []
  · rw [if_pos empty]
  · obtain ⟨fuel, enough⟩ : ∃ fuel, (content name).length = fuel + 1 :=
      Nat.exists_eq_succ_of_ne_zero
        (fun none => empty (List.length_eq_zero_iff.mp none))
    rw [if_neg empty, enough, writeLabels, if_neg empty]
    simp only [ensure_eq_false]
    rcases nothing.resolve_left empty with long | full
    · rw [if_pos long]
    · rw [if_pos full, ite_self]

/-- Every other name moves the position. -/
theorem pos_lt_writeNameUncompressed
    {b : DnsBuilder} {name : Bytes} (started : ¬ NothingWritten b name) :
    b.pos < (writeNameUncompressed b name).2.pos := by
  obtain ⟨filled, short, room⟩ :
      content name ≠ [] ∧
        ¬ dnsMaxLabelLen < ((content name).takeWhile (· ≠ 46)).length ∧
          ¬ b.buf.length <
            b.pos + (1 + ((content name).takeWhile (· ≠ 46)).length) := by
    simpa only [NothingWritten, not_or] using started
  obtain ⟨fuel, enough⟩ : ∃ fuel, (content name).length = fuel + 1 :=
    Nat.exists_eq_succ_of_ne_zero
      (fun none => filled (List.length_eq_zero_iff.mp none))
  have labels :
      b.pos < (writeLabels (content name).length b (content name)).2.pos := by
    rw [enough, writeLabels, if_neg filled]
    simp only [ensure_eq_false]
    rw [if_neg short, if_neg room]
    refine Nat.lt_of_lt_of_le ?_ (extends_writeLabels _ _ _).pos_le
    simp only [put_pos, List.length_singleton]
    omega
  unfold writeNameUncompressed
  simp only
  rw [if_neg filled]
  split
  · rename_i after result
    rw [result] at labels
    exact labels
  · rename_i after result
    rw [result] at labels
    split
    · exact labels
    · rw [put_pos]
      simp only at labels
      omega

/-- A build that starts with the name and goes on behind it. -/
theorem leavesAsBefore_iff
    {b : DnsBuilder} {name : Bytes} {behind : Nat}
    {result : Bool × DnsBuilder}
    (succeeds :
      result.1 = true ↔ content name ≠ [] ∧ Fits b name behind)
    (stops : writeNameUncompressed b name = (false, b) → result.2 = b)
    (goesOn : (writeNameUncompressed b name).2.Extends result.2) :
    LeavesAsBefore b result ↔
      NothingWritten b name ∨ Fits b name behind := by
  constructor
  · intro asBefore
    by_contra neither
    obtain ⟨started, crowded⟩ := not_or.mp neither
    have failed : result.1 = false := by
      rw [← Bool.not_eq_true, succeeds]
      exact fun fits => crowded fits.2
    have moved := pos_lt_writeNameUncompressed started
    have further := goesOn.pos_le
    have still := (asBefore failed).1
    omega
  · rintro (nothing | fits) failed
    · rw [stops (writeNameUncompressed_of_nothing nothing)]
      exact ⟨rfl, rfl⟩
    · by_cases empty : content name = []
      · rw [stops (writeNameUncompressed_of_nothing (Or.inl empty))]
        exact ⟨rfl, rfl⟩
      · rw [succeeds.mpr ⟨empty, fits⟩] at failed
        cases failed

theorem dnsBuildQuestion_goesOn
    (b : DnsBuilder) (qname : Bytes) (qtype qclass : UInt16) :
    (writeNameUncompressed b qname).2.Extends
      (dnsBuildQuestion b qname qtype qclass).2 := by
  rw [dnsBuildQuestion]
  split
  · rename_i after named
    rw [named]
    exact .refl after
  · rename_i after named
    rw [named]
    split
    · exact .refl after
    · exact (Extends.put _ _).trans (.put _ _)

theorem dnsBuildRr_goesOn
    (b : DnsBuilder) (name : Bytes) (type rrclass : UInt16)
    (ttl : UInt32) (rdata : Bytes) (rdlength : UInt16) :
    (writeNameUncompressed b name).2.Extends
      (dnsBuildRr b name type rrclass ttl rdata rdlength).2 := by
  rw [dnsBuildRr]
  split
  · rename_i after named
    rw [named]
    exact .refl after
  · rename_i after named
    rw [named]
    split
    · exact .refl after
    · have fields :=
        (((Extends.put after (bytes16 type)).trans
          (.put _ (bytes16 rrclass))).trans (.put _ (bytes32 ttl))).trans
            (.put _ (bytes16 rdlength))
      simp only
      generalize
        (((after.put (bytes16 type)).put (bytes16 rrclass)).put
          (bytes32 ttl)).put (bytes16 rdlength) = filled at fields ⊢
      split
      · exact fields
      · exact fields.trans (.put _ (rdata.take rdlength.toNat))

/-- The builder is as before exactly when the build succeeds or fails before
its first label. -/
theorem builds_leaveAsBefore_iff
    (b : DnsBuilder) (name : Bytes) (type rrclass : UInt16)
    (ttl : UInt32) (rdata : Bytes) (rdlength : UInt16) :
    (LeavesAsBefore b (dnsBuildQuestion b name type rrclass) ↔
        NothingWritten b name ∨ Fits b name 4) ∧
      (LeavesAsBefore b
          (dnsBuildRr b name type rrclass ttl rdata rdlength) ↔
        NothingWritten b name ∨ Fits b name (10 + rdlength.toNat)) := by
  constructor
  · apply leavesAsBefore_iff (dnsBuildQuestion_ok_iff b name type rrclass)
    · intro stopped
      simp only [dnsBuildQuestion, stopped]
    · exact dnsBuildQuestion_goesOn b name type rrclass
  · apply
      leavesAsBefore_iff
        (dnsBuildRr_ok_iff b name type rrclass ttl rdata rdlength)
    · intro stopped
      simp only [dnsBuildRr, stopped]
    · exact dnsBuildRr_goesOn b name type rrclass ttl rdata rdlength

/-- The name `a.` fits into four bytes, and the type and class behind it do
not. -/
theorem failedBuilds_leave_name :
    ¬ ∀ (b : DnsBuilder) (name : Bytes) (type rrclass : UInt16)
        (ttl : UInt32) (rdata : Bytes) (rdlength : UInt16),
      LeavesAsBefore b (dnsBuildQuestion b name type rrclass) ∧
        LeavesAsBefore b
          (dnsBuildRr b name type rrclass ttl rdata rdlength) := by
  intro asBefore
  have question :=
    (asBefore (dnsBuilderInit [0, 0, 0, 0]) [97, 46] 1 1 0 [] 0).1
  have still := (question (by decide)).1
  exact absurd still (by decide)

end DnsFirewall
