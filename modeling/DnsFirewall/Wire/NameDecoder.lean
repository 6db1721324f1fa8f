import DnsFirewall.Wire.Rebuild

/-!
# Name decompression

`read_name` as the loop it is, with its two cursors, its counter and the offset
it reports back, next to the names of RFC 1035, which follow labels and
pointers without any counter.  Every run of the loop ends within 21 passes;
what it returns is the decoded name, and the offset moves only on success.
-/

namespace DnsFirewall

open CString Cursor BigEndian

/-! ## The loop -/

/-- The local variables of `read_name` and `*offset`; `out` holds the bytes
`out[0..out_pos)`. -/
structure NameState where
  pos : Nat
  out : Bytes
  jumped : Bool
  jumpOffset : Nat
  loops : Nat
  offset : Nat

/-- What `read_name` leaves behind: its value, `*offset` and the bytes written
to `out`. -/
structure NameReturn where
  value : Int
  offset : Nat
  buffer : Bytes
deriving DecidableEq, Repr

/-- A pass through the body of the loop ends at its end or at the `break`. -/
inductive NameTurn where
  | next (s : NameState)
  | stop (s : NameState)

namespace NameState

def start (offset : Nat) : NameState :=
  ⟨offset, [], false, 0, 0, offset⟩

/-- `loops++`. -/
def counted (s : NameState) : NameState :=
  { s with loops := s.loops + 1 }

/-- `return -1`, or an access outside the buffers. -/
def failed (s : NameState) : ReadError → Except ReadError NameReturn
  | .reject => .ok ⟨-1, s.offset, s.out⟩
  | .readOutside => .error .readOutside
  | .writeOutside => .error .writeOutside

/-- The body of the loop behind the test of the counter. -/
def turn (pkt : Bytes) (outLen : Nat) (s : NameState) :
    Except ReadError NameTurn := do
  match ← nameStep pkt outLen s.out.length s.pos with
  | .root => return .stop { s with pos := s.pos + 1 }
  | .pointer target =>
      return .next
        { s with
          pos := target
          jumped := true
          jumpOffset := if s.jumped then s.jumpOffset else s.pos + 2 }
  | .label bytes =>
      let out ← putOut outLen s.out (bytes ++ [46])
      return .next { s with pos := s.pos + 1 + bytes.length, out := out }

/-- The code behind the loop. -/
def finish (outLen : Nat) (s : NameState) :
    Except ReadError NameReturn := do
  let name ← finishName outLen s.out
  return ⟨0, if s.jumped then s.jumpOffset else s.pos, name ++ [0]⟩

/-- `jump_offset` as far as it is set. -/
def jump (s : NameState) : Option Nat :=
  if s.jumped then some s.jumpOffset else none

end NameState

/-- The executions of `while (1)`, with the number of passes that go beyond
the test `loops++ > 20`. -/
inductive ReadNameRun (pkt : Bytes) (outLen : Nat) :
    Nat → NameState → Except ReadError NameReturn → Prop where
  | exhausted {s : NameState} :
      20 < s.loops → ReadNameRun pkt outLen 0 s (s.failed .reject)
  | fails {s : NameState} {failure : ReadError} :
      s.loops ≤ 20 → s.counted.turn pkt outLen = .error failure →
        ReadNameRun pkt outLen 1 s (s.failed failure)
  | breaks {s last : NameState} :
      s.loops ≤ 20 → s.counted.turn pkt outLen = .ok (.stop last) →
        ReadNameRun pkt outLen 1 s (last.finish outLen)
  | goesOn {s next : NameState} {passes : Nat}
      {outcome : Except ReadError NameReturn} :
      s.loops ≤ 20 → s.counted.turn pkt outLen = .ok (.next next) →
        ReadNameRun pkt outLen passes next outcome →
          ReadNameRun pkt outLen (passes + 1) s outcome

theorem ReadNameRun.unique
    {pkt : Bytes} {outLen passes : Nat} {s : NameState}
    {outcome : Except ReadError NameReturn}
    (first : ReadNameRun pkt outLen passes s outcome) :
    ∀ {others : Nat} {other : Except ReadError NameReturn},
      ReadNameRun pkt outLen others s other →
        others = passes ∧ other = outcome := by
  induction first with
  | exhausted spent =>
      intro others other second
      cases second with
      | exhausted => exact ⟨rfl, rfl⟩
      | fails within | breaks within | goesOn within => omega
  | fails within failed =>
      intro others other second
      cases second with
      | exhausted => omega
      | fails _ alsoFailed =>
          rw [failed] at alsoFailed
          cases alsoFailed
          exact ⟨rfl, rfl⟩
      | breaks _ ended | goesOn _ ended =>
          rw [failed] at ended
          cases ended
  | breaks within ended =>
      intro others other second
      cases second with
      | exhausted => omega
      | breaks _ alsoEnded =>
          rw [ended] at alsoEnded
          cases alsoEnded
          exact ⟨rfl, rfl⟩
      | fails _ went | goesOn _ went =>
          rw [ended] at went
          cases went
  | goesOn within went _ inductionHypothesis =>
      intro others other second
      cases second with
      | exhausted => omega
      | goesOn _ alsoWent rest =>
          rw [went] at alsoWent
          cases alsoWent
          obtain ⟨samePasses, same⟩ := inductionHypothesis rest
          exact ⟨congrArg (· + 1) samePasses, same⟩
      | fails _ ended | breaks _ ended =>
          rw [went] at ended
          cases ended

/-! ## Names on the wire -/

/-- The name at the position has the given labels: it is the root byte, or a
label in front of a name, or a pointer to a name. -/
inductive Decodes (pkt : Bytes) : Nat → List Bytes → Prop where
  | root {pos : Nat} : pkt[pos]? = some 0 → Decodes pkt pos []
  | label {pos : Nat} {len : UInt8} {labels : List Bytes} :
      pkt[pos]? = some len → 0 < len.toNat → len.toNat < 64 →
        pos + 1 + len.toNat ≤ pkt.length →
          Decodes pkt (pos + 1 + len.toNat) labels →
            Decodes pkt pos
              ((pkt.drop (pos + 1)).take len.toNat :: labels)
  | pointer {pos : Nat} {high low : UInt8} {labels : List Bytes} :
      pkt[pos]? = some high → high.toNat / 64 = 3 →
        pkt[pos + 1]? = some low →
          Decodes pkt (high.toNat % 64 * 256 + low.toNat) labels →
            Decodes pkt pos labels

/-- The part of the name that stands at its place ends with the root byte or
with the first pointer. -/
inductive InPlace (pkt : Bytes) : Nat → Nat → Prop where
  | root {pos : Nat} : pkt[pos]? = some 0 → InPlace pkt pos (pos + 1)
  | label {pos stop : Nat} {len : UInt8} :
      pkt[pos]? = some len → 0 < len.toNat → len.toNat < 64 →
        InPlace pkt (pos + 1 + len.toNat) stop → InPlace pkt pos stop
  | pointer {pos : Nat} {high : UInt8} :
      pkt[pos]? = some high → high.toNat / 64 = 3 →
        InPlace pkt pos (pos + 2)

theorem Decodes.unique
    {pkt : Bytes} {pos : Nat} {labels : List Bytes}
    (first : Decodes pkt pos labels) :
    ∀ {others : List Bytes}, Decodes pkt pos others → others = labels := by
  induction first with
  | root zero =>
      intro others second
      cases second with
      | root => rfl
      | label there positive | pointer there positive =>
          rw [zero] at there
          cases there
          simp at positive
  | label here positive short inside _ inductionHypothesis =>
      intro others second
      cases second with
      | root there =>
          rw [here] at there
          cases there
          simp at positive
      | label there _ _ _ rest =>
          rw [here] at there
          cases there
          rw [inductionHypothesis rest]
      | pointer there high =>
          rw [here] at there
          cases there
          omega
  | pointer here high low _ inductionHypothesis =>
      intro others second
      cases second with
      | root there =>
          rw [here] at there
          cases there
          simp at high
      | label there _ short =>
          rw [here] at there
          cases there
          omega
      | pointer there _ alsoLow rest =>
          rw [here] at there
          cases there
          rw [low] at alsoLow
          cases alsoLow
          exact inductionHypothesis rest

/-! ## One pass -/

theorem and_pointer_iff (len : UInt8) :
    len &&& 0xC0 = 0xC0 ↔ len.toNat / 64 = 3 := by
  have bits :
      ∀ value : Fin 256, value.val &&& 192 = 192 ↔ value.val / 64 = 3 := by
    decide +kernel
  rw [← UInt8.toNat_inj, UInt8.toNat_and]
  exact bits ⟨len.toNat, len.toNat_lt⟩

theorem and_offset_toNat (len : UInt8) :
    (len &&& 0x3F).toNat = len.toNat % 64 := by
  rw [UInt8.toNat_and]
  exact Nat.and_two_pow_sub_one_eq_mod len.toNat 6

/-- The bytes at the position are a root byte, a pointer or a label. -/
def StepReads (pkt : Bytes) (pos : Nat) : NameStep → Prop
  | .root => pkt[pos]? = some 0
  | .pointer target =>
      ∃ high low : UInt8,
        pkt[pos]? = some high ∧ high.toNat / 64 = 3 ∧
          pkt[pos + 1]? = some low ∧
            target = high.toNat % 64 * 256 + low.toNat
  | .label bytes =>
      ∃ len : UInt8,
        pkt[pos]? = some len ∧ 0 < len.toNat ∧ len.toNat < 64 ∧
          pos + 1 + len.toNat ≤ pkt.length ∧
            bytes = (pkt.drop (pos + 1)).take len.toNat

theorem stepReads_of_nameStep
    {pkt : Bytes} {outLen outPos pos : Nat} {step : NameStep}
    (found : nameStep pkt outLen outPos pos = .ok step) :
    StepReads pkt pos step := by
  unfold nameStep at found
  by_cases outside : pkt.length ≤ pos
  · rw [if_pos outside] at found
    cases found
  have inside : pos < pkt.length := by omega
  rw [if_neg outside, byteAt_of_lt inside] at found
  simp only [bind, Except.bind, pure, Except.pure] at found
  have here : pkt[pos]? = some pkt[pos] := List.getElem?_eq_getElem inside
  by_cases zero : pkt[pos] = 0
  · rw [if_pos zero] at found
    cases found
    rw [zero] at here
    exact here
  rw [if_neg zero] at found
  by_cases compressed : pkt[pos] &&& 0xC0 = 0xC0
  · rw [if_pos compressed] at found
    by_cases cut : pkt.length ≤ pos + 1
    · rw [if_pos cut] at found
      cases found
    have lowInside : pos + 1 < pkt.length := by omega
    rw [if_neg cut, byteAt_of_lt lowInside] at found
    simp only at found
    split at found
    · cases found
    · cases found
      refine
        ⟨pkt[pos], pkt[pos + 1], here, (and_pointer_iff _).mp compressed,
          List.getElem?_eq_getElem lowInside, ?_⟩
      rw [word16_toNat, and_offset_toNat]
  rw [if_neg compressed] at found
  by_cases long : dnsMaxLabelLen < pkt[pos].toNat
  · rw [if_pos long] at found
    cases found
  rw [if_neg long] at found
  by_cases cut : pkt.length < pos + 1 + pkt[pos].toNat
  · rw [if_pos cut] at found
    cases found
  rw [if_neg cut] at found
  by_cases full : outLen ≤ outPos + pkt[pos].toNat + 1
  · rw [if_pos full] at found
    cases found
  rw [if_neg full, bytesAt_of_le (by omega)] at found
  cases found
  have positive : 0 < pkt[pos].toNat := by
    apply Nat.pos_of_ne_zero
    intro isZero
    exact zero (UInt8.toNat_inj.mp isZero)
  unfold dnsMaxLabelLen at long
  exact ⟨pkt[pos], here, positive, by omega, by omega, rfl⟩

/-! ## The loop decodes the name -/

/-- The characters in front of the NUL. -/
def spelled (out : Bytes) : Bytes :=
  if out = [] then [46] else out

theorem decodes_of_readNameLoop
    (pkt : Bytes) (outLen : Nat) {loops pos : Nat} {out name : Bytes}
    {jumped : Option Nat} {stop : Nat}
    (read :
      readNameLoop pkt outLen loops pos out jumped = .ok (name, stop)) :
    ∃ labels,
      Decodes pkt pos labels ∧ name = spelled (out ++ nameText labels) ∧
        (jumped = none → InPlace pkt pos stop) ∧
          ∀ after, jumped = some after → stop = after := by
  induction loops generalizing pos out jumped with
  | zero => cases read
  | succ loops inductionHypothesis =>
      rw [readNameLoop] at read
      obtain ⟨step, isStep, passed⟩ := bind_eq_ok.mp read
      have reads := stepReads_of_nameStep isStep
      cases step with
      | root =>
          obtain ⟨finished, isFinished, same⟩ := bind_eq_ok.mp passed
          cases same
          refine ⟨[], .root reads, ?_, ?_, ?_⟩
          · rw [nameText, List.append_nil]
            exact finishName_eq_ok isFinished
          · intro same
            subst same
            exact .root reads
          · intro after same
            subst same
            rfl
      | pointer target =>
          obtain ⟨high, low, here, isPointer, next, rfl⟩ := reads
          -- after a jump the stop is already known
          obtain ⟨labels, decodes, text, _, known⟩ :=
            inductionHypothesis passed
          have isStop := known _ rfl
          refine ⟨labels, .pointer here isPointer next decodes, text, ?_, ?_⟩
          · intro same
            subst same
            rw [isStop]
            exact .pointer here isPointer
          · intro after same
            subst same
            exact isStop
      | label bytes =>
          obtain ⟨len, here, positive, short, inside, isBytes⟩ := reads
          obtain ⟨longer, isPut, rest⟩ := bind_eq_ok.mp passed
          have length : bytes.length = len.toNat := by
            rw [isBytes, List.length_take, List.length_drop]
            omega
          rw [(putOut_eq_ok isPut).1, length] at rest
          obtain ⟨labels, decodes, text, ends, known⟩ :=
            inductionHypothesis rest
          refine
            ⟨bytes :: labels, ?_, ?_,
              fun still => .label here positive short (ends still), known⟩
          · rw [isBytes]
            exact .label here positive short inside decodes
          · rw [text, nameText, List.append_assoc, List.append_assoc]
            rfl

theorem decodes_of_readName
    {pkt : Bytes} {outLen offset stop : Nat} {name : Bytes}
    (read : readName pkt outLen offset = .ok (name, stop)) :
    ∃ labels,
      Decodes pkt offset labels ∧ name = spelled (nameText labels) ∧
        InPlace pkt offset stop := by
  obtain ⟨labels, decodes, text, ends, _⟩ :=
    decodes_of_readNameLoop pkt outLen read
  exact ⟨labels, decodes, text, ends rfl⟩

/-! ## Every run of the loop -/

/-- What `read_name` leaves behind is what the reader yields. -/
inductive NameReturn.Yields (outLen offset : Nat) (r : NameReturn) :
    Except ReadError (Bytes × Nat) → Prop where
  | name {name : Bytes} {stop : Nat} :
      r = ⟨0, stop, name ++ [0]⟩ → Yields outLen offset r (.ok (name, stop))
  | rejected :
      r.value = -1 → r.offset = offset → r.buffer.length ≤ outLen →
        Yields outLen offset r (.error .reject)

theorem NameState.jump_getD (s : NameState) (after : Nat) :
    s.jump.getD after = if s.jumped then s.jumpOffset else after := by
  rw [NameState.jump]
  cases s.jumped with
  | false => rfl
  | true => rfl

namespace NameState

variable {pkt : Bytes} {outLen : Nat} {s : NameState}

/-- The state behind a pass that follows a pointer. -/
def pointed (s : NameState) (target : Nat) : NameState :=
  { s.counted with
    pos := target
    jumped := true
    jumpOffset := if s.jumped then s.jumpOffset else s.pos + 2 }

/-- The state behind a pass that copies a label. -/
def labelled (s : NameState) (bytes : Bytes) : NameState :=
  { s.counted with
    pos := s.pos + 1 + bytes.length
    out := s.out ++ (bytes ++ [46]) }

theorem turn_of_rejected
    (rejected :
      nameStep pkt outLen s.out.length s.pos = .error .reject) :
    s.counted.turn pkt outLen = .error .reject := by
  rw [turn, counted]
  simp only [rejected]
  rfl

theorem turn_of_root
    (found : nameStep pkt outLen s.out.length s.pos = .ok .root) :
    s.counted.turn pkt outLen =
      .ok (.stop { s.counted with pos := s.pos + 1 }) := by
  rw [turn, counted]
  simp only [found]
  rfl

theorem turn_of_pointer
    {target : Nat}
    (found : nameStep pkt outLen s.out.length s.pos = .ok (.pointer target)) :
    s.counted.turn pkt outLen = .ok (.next (s.pointed target)) := by
  rw [turn, counted]
  simp only [found]
  rfl

theorem turn_of_label
    {bytes : Bytes}
    (found : nameStep pkt outLen s.out.length s.pos = .ok (.label bytes))
    (written :
      putOut outLen s.out (bytes ++ [46]) =
        .ok (s.out ++ (bytes ++ [46]))) :
    s.counted.turn pkt outLen = .ok (.next (s.labelled bytes)) := by
  rw [turn, counted]
  simp only [found, bind, Except.bind, written]
  rfl

theorem jump_pointed (s : NameState) (target : Nat) :
    (s.pointed target).jump = some (s.jump.getD (s.pos + 2)) := by
  rw [s.jump_getD]
  rfl

theorem finish_of_finishName
    {name : Bytes} {stop : Nat}
    (finished : finishName outLen s.out = .ok name) :
    finish outLen { s.counted with pos := stop } =
      .ok ⟨0, s.jump.getD stop, name ++ [0]⟩ := by
  rw [s.jump_getD]
  rw [finish, counted]
  simp only [finished]
  rfl

end NameState

open NameState in
/-- From any state of the loop, a run ends within the passes that are left to
the counter, with what the reader yields from there. -/
theorem exists_readNameRun
    (pkt : Bytes) {outLen : Nat} (two : 2 ≤ outLen) (left : Nat)
    (s : NameState) (counter : s.loops + left = readNamePasses)
    (room : s.out.length < outLen) :
    ∃ passes r,
      passes ≤ left ∧ ReadNameRun pkt outLen passes s (.ok r) ∧
        r.Yields outLen s.offset
          (readNameLoop pkt outLen left s.pos s.out s.jump) := by
  induction left generalizing s with
  | zero =>
      unfold readNamePasses at counter
      exact
        ⟨0, ⟨-1, s.offset, s.out⟩, Nat.le_refl 0, .exhausted (by omega),
          .rejected rfl rfl (Nat.le_of_lt room)⟩
  | succ left inductionHypothesis =>
      have within : s.loops ≤ 20 := by
        unfold readNamePasses at counter
        omega
      have counterNext : s.counted.loops + left = readNamePasses := by
        rw [← counter, Nat.add_comm left 1, ← Nat.add_assoc]
        rfl
      rw [readNameLoop]
      rcases nameStep_cases pkt outLen s.out.length s.pos with
        rejected | ⟨_, found⟩ | ⟨target, _, _, found⟩ |
        ⟨bytes, _, _, _, fits, found⟩
      · rw [rejected]
        exact
          ⟨1, ⟨-1, s.offset, s.out⟩, by omega,
            .fails within (turn_of_rejected rejected),
            .rejected rfl rfl (Nat.le_of_lt room)⟩
      · rw [found]
        obtain ⟨name, finished, _⟩ := finishName_of_lt two room
        have run := ReadNameRun.breaks within (turn_of_root found)
        rw [finish_of_finishName finished] at run
        refine ⟨1, _, by omega, run, ?_⟩
        simp only [bind, Except.bind, finished, pure, Except.pure]
        exact .name rfl
      · rw [found]
        obtain ⟨passes, r, few, run, yields⟩ :=
          inductionHypothesis (s.pointed target) counterNext room
        rw [jump_pointed] at yields
        exact
          ⟨passes + 1, r, by omega,
            .goesOn within (turn_of_pointer found) run, yields⟩
      · rw [found]
        have written :
            putOut outLen s.out (bytes ++ [46]) =
              .ok (s.out ++ (bytes ++ [46])) := by
          apply putOut_of_le
          simp only [List.length_append, List.length_singleton]
          omega
        have roomNext : (s.labelled bytes).out.length < outLen := by
          simp only [labelled, List.length_append, List.length_singleton]
          omega
        obtain ⟨passes, r, few, run, yields⟩ :=
          inductionHypothesis (s.labelled bytes) counterNext roomNext
        have unfolded :
            (do
              let out ← putOut outLen s.out (bytes ++ [46])
              readNameLoop pkt outLen left (s.pos + 1 + bytes.length) out
                s.jump) =
              readNameLoop pkt outLen left (s.labelled bytes).pos
                (s.labelled bytes).out (s.labelled bytes).jump := by
          rw [written]
          rfl
        rw [← unfolded] at yields
        exact
          ⟨passes + 1, r, by omega,
            .goesOn within (turn_of_label found written) run, yields⟩

/-- For every packet, offset and buffer of at least two bytes, `read_name` has
one run.  It ends within 21 passes and without an access outside the packet or
the buffer; it returns the name that the packet holds at the offset and moves
the offset behind the part in place, or returns -1 and leaves the offset. -/
theorem readName_decodes
    (pkt : Bytes) (offset outLen : Nat) (two : 2 ≤ outLen) :
    ∃ passes r,
      ReadNameRun pkt outLen passes (.start offset) (.ok r) ∧
        (∀ others other,
          ReadNameRun pkt outLen others (.start offset) other →
            others = passes ∧ other = .ok r) ∧
        passes ≤ 21 ∧ r.buffer.length ≤ outLen ∧
          ((r.value = 0 ∧
              ∃ labels,
                Decodes pkt offset labels ∧
                  (∀ others, Decodes pkt offset others → others = labels) ∧
                  r.buffer = spelled (nameText labels) ++ [0] ∧
                    InPlace pkt offset r.offset ∧ offset < r.offset ∧
                      r.offset ≤ pkt.length) ∨
            (r.value = -1 ∧ r.offset = offset)) := by
  have room : ([] : Bytes).length < outLen := by
    rw [List.length_nil]
    omega
  obtain ⟨passes, r, few, run, yields⟩ :=
    exists_readNameRun pkt two readNamePasses (.start offset)
      (Nat.zero_add _) room
  have yields : r.Yields outLen offset (readName pkt outLen offset) := yields
  refine ⟨passes, r, run, fun _ _ other => run.unique other, few, ?_⟩
  cases read : readName pkt outLen offset with
  | error failure =>
      rw [read] at yields
      cases yields with
      | rejected value kept short => exact ⟨short, Or.inr ⟨value, kept⟩⟩
  | ok result =>
      obtain ⟨name, stop⟩ := result
      rw [read] at yields
      cases yields with
      | name isReturn =>
          obtain ⟨short, progress, inside⟩ := readName_ok two read
          obtain ⟨labels, decodes, text, inPlace⟩ := decodes_of_readName read
          rw [isReturn]
          refine
            ⟨?_, Or.inl ⟨rfl, labels, decodes,
              fun _ other => decodes.unique other, ?_, inPlace, progress,
              inside⟩⟩
          · simp only [List.length_append, List.length_singleton]
            omega
          · rw [text]

/-- A pointer to itself. -/
def selfPointer : Bytes := [0xC0, 0]

theorem readName_decodes_selfPointer :
    ∃ passes r,
      ReadNameRun selfPointer 2 passes (.start 0) (.ok r) ∧ passes ≤ 21 := by
  obtain ⟨passes, r, run, _, few, _⟩ :=
    readName_decodes selfPointer 0 2 (by decide)
  exact ⟨passes, r, run, few⟩

end DnsFirewall
