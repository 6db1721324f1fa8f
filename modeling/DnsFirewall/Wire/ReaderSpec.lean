import DnsFirewall.Wire.Reader

/-!
# What the readers do

One specification lemma for each reader: where it can fail, and what a
successful read says about the packet.  Callers use these and never unfold a
reader.
-/

namespace DnsFirewall

open CString Cursor BigEndian

/-! ## Single accesses -/

theorem byteAt_of_lt {pkt : Bytes} {index : Nat} (inside : index < pkt.length) :
    byteAt pkt index = .ok pkt[index] := by
  simp [byteAt, inside]

theorem bytesAt_of_le
    {pkt : Bytes} {index count : Nat}
    (inside : index + count ≤ pkt.length) :
    bytesAt pkt index count = .ok ((pkt.drop index).take count) := by
  simp [bytesAt, inside]

theorem exists_readU16
    (pkt : Bytes) (index : Nat) (inside : index + 2 ≤ pkt.length) :
    ∃ value, readU16 pkt index = .ok value := by
  have first : index < pkt.length := by omega
  have second : index + 1 < pkt.length := by omega
  simp [readU16, byteAt_of_lt first, byteAt_of_lt second,
    bind, Except.bind, pure, Except.pure]

theorem exists_readU32
    (pkt : Bytes) (index : Nat) (inside : index + 4 ≤ pkt.length) :
    ∃ value, readU32 pkt index = .ok value := by
  have first : index < pkt.length := by omega
  have second : index + 1 < pkt.length := by omega
  have third : index + 2 < pkt.length := by omega
  have fourth : index + 3 < pkt.length := by omega
  simp [readU32, byteAt_of_lt first, byteAt_of_lt second,
    byteAt_of_lt third, byteAt_of_lt fourth,
    bind, Except.bind, pure, Except.pure]

/-! ## One pass of the name loop -/

/-- Everything one pass can find.  A pass that fails was stopped by one of the
checks of the loop; no access of it leaves the packet. -/
theorem nameStep_cases (pkt : Bytes) (outLen outPos pos : Nat) :
    nameStep pkt outLen outPos pos = .error .reject ∨
      (pos < pkt.length ∧
        nameStep pkt outLen outPos pos = .ok .root) ∨
      (∃ target,
        pos + 2 ≤ pkt.length ∧ target < pkt.length ∧
          nameStep pkt outLen outPos pos = .ok (.pointer target)) ∨
      ∃ bytes : Bytes,
        0 < bytes.length ∧ bytes.length ≤ dnsMaxLabelLen ∧
          pos + 1 + bytes.length ≤ pkt.length ∧
            outPos + bytes.length + 1 < outLen ∧
              nameStep pkt outLen outPos pos = .ok (.label bytes) := by
  rw [nameStep]
  by_cases outside : pkt.length ≤ pos
  · exact Or.inl (if_pos outside)
  have inside : pos < pkt.length := by omega
  rw [if_neg outside, byteAt_of_lt inside]
  simp only [bind, Except.bind, pure, Except.pure]
  by_cases zero : pkt[pos] = 0
  · exact Or.inr (Or.inl ⟨inside, if_pos zero⟩)
  rw [if_neg zero]
  by_cases compressed : pkt[pos] &&& 0xC0 = 0xC0
  · rw [if_pos compressed]
    by_cases cut : pkt.length ≤ pos + 1
    · exact Or.inl (if_pos cut)
    have lowInside : pos + 1 < pkt.length := by omega
    rw [if_neg cut, byteAt_of_lt lowInside]
    simp only
    by_cases far :
        pkt.length ≤ (word16 (pkt[pos] &&& 0x3F) pkt[pos + 1]).toNat
    · exact Or.inl (if_pos far)
    · exact Or.inr (Or.inr (Or.inl
        ⟨_, by omega, by omega, if_neg far⟩))
  rw [if_neg compressed]
  by_cases long : dnsMaxLabelLen < pkt[pos].toNat
  · exact Or.inl (if_pos long)
  rw [if_neg long]
  by_cases cut : pkt.length < pos + 1 + pkt[pos].toNat
  · exact Or.inl (if_pos cut)
  rw [if_neg cut]
  by_cases full : outLen ≤ outPos + pkt[pos].toNat + 1
  · exact Or.inl (if_pos full)
  rw [if_neg full, bytesAt_of_le (by omega)]
  -- the length byte is not zero, so the label is not empty
  have positive : 0 < pkt[pos].toNat := by
    apply Nat.pos_of_ne_zero
    intro isZero
    exact zero (UInt8.toNat_inj.mp isZero)
  have length :
      ((pkt.drop (pos + 1)).take pkt[pos].toNat).length =
        pkt[pos].toNat := by
    rw [List.length_take, List.length_drop]
    omega
  refine Or.inr (Or.inr (Or.inr ⟨_, ?_, ?_, ?_, ?_, rfl⟩)) <;>
    rw [length] <;> omega

/-! ## Names -/

theorem putOut_of_le
    {outLen : Nat} {out bytes : Bytes}
    (room : out.length + bytes.length ≤ outLen) :
    putOut outLen out bytes = .ok (out ++ bytes) := by
  simp [putOut, room]

theorem finishName_of_lt
    {outLen : Nat} {out : Bytes}
    (two : 2 ≤ outLen) (room : out.length < outLen) :
    ∃ name : Bytes,
      finishName outLen out = .ok name ∧ name.length < outLen := by
  by_cases empty : out.length = 0
  · have written := @putOut_of_le outLen [46] [0] two
    refine ⟨[46], ?_, two⟩
    simp [finishName, empty, written, bind, Except.bind, pure,
      Except.pure]
  · have written := @putOut_of_le outLen out [0] room
    refine ⟨out, ?_, room⟩
    simp [finishName, empty, written, bind, Except.bind, pure,
      Except.pure]

/-- The outcome of the loop from any of its passes: a rejection, or a name
that fits the buffer with its NUL, with the offset behind the in-place part. -/
theorem readNameLoop_cases
    (pkt : Bytes) {outLen : Nat} (two : 2 ≤ outLen) (loops pos : Nat)
    (out : Bytes) (jumped : Option Nat) (room : out.length < outLen) :
    readNameLoop pkt outLen loops pos out jumped = .error .reject ∨
      ∃ name stop,
        readNameLoop pkt outLen loops pos out jumped = .ok (name, stop) ∧
          name.length < outLen ∧
            (jumped = none → pos < stop ∧ stop ≤ pkt.length) ∧
              ∀ after, jumped = some after → stop = after := by
  induction loops generalizing pos out jumped with
  | zero => exact Or.inl rfl
  | succ loops inductionHypothesis =>
      rw [readNameLoop]
      rcases nameStep_cases pkt outLen out.length pos with
        rejected | ⟨inside, found⟩ | ⟨target, inside, targetInside, found⟩ |
        ⟨bytes, nonempty, _, inside, fits, found⟩
      · rw [rejected]
        exact Or.inl rfl
      · rw [found]
        obtain ⟨name, finished, short⟩ := finishName_of_lt two room
        refine Or.inr ⟨name, jumped.getD (pos + 1), ?_, short, ?_, ?_⟩
        · simp [bind, Except.bind, finished, pure, Except.pure]
        · intro same
          subst same
          simp only [Option.getD_none]
          omega
        · intro after same
          subst same
          rfl
      · rw [found]
        -- after a jump the stop is already known
        rcases inductionHypothesis target out
            (some (jumped.getD (pos + 2))) room with
          rejected | ⟨name, stop, read, short, _, stopKnown⟩
        · exact Or.inl rejected
        · have stopAfter := stopKnown _ rfl
          refine Or.inr ⟨name, stop, read, short, ?_, ?_⟩
          · intro same
            subst same
            simp only [Option.getD_none] at stopAfter
            omega
          · intro after same
            subst same
            exact stopAfter
      · rw [found]
        have newRoom : (out ++ (bytes ++ [46])).length < outLen := by
          simp only [List.length_append, List.length_singleton]
          omega
        have written :
            putOut outLen out (bytes ++ [46]) =
              .ok (out ++ (bytes ++ [46])) :=
          putOut_of_le (by
            simp only [List.length_append, List.length_singleton]
            omega)
        have unfolded :
            (do
              let out ← putOut outLen out (bytes ++ [46])
              readNameLoop pkt outLen loops (pos + 1 + bytes.length)
                out jumped) =
              readNameLoop pkt outLen loops (pos + 1 + bytes.length)
                (out ++ (bytes ++ [46])) jumped := by
          rw [written]
          rfl
        rcases inductionHypothesis (pos + 1 + bytes.length)
            (out ++ (bytes ++ [46])) jumped newRoom with
          rejected | ⟨name, stop, read, short, bounds, stopKnown⟩
        · exact Or.inl (unfolded.trans rejected)
        · refine Or.inr ⟨name, stop, unfolded.trans read, short, ?_,
            stopKnown⟩
          intro noJump
          have range := bounds noJump
          omega

/-- `read_name` either rejects or yields a name shorter than its buffer and an
offset behind the start and inside the packet. -/
theorem readName_cases
    (pkt : Bytes) {outLen : Nat} (two : 2 ≤ outLen) (offset : Nat) :
    readName pkt outLen offset = .error .reject ∨
      ∃ name stop,
        readName pkt outLen offset = .ok (name, stop) ∧
          name.length < outLen ∧ offset < stop ∧ stop ≤ pkt.length := by
  have room : ([] : Bytes).length < outLen := by
    simp only [List.length_nil]
    omega
  rcases readNameLoop_cases pkt two readNamePasses offset [] none room with
    rejected | ⟨name, stop, read, short, bounds, _⟩
  · exact Or.inl rejected
  · exact Or.inr ⟨name, stop, read, short, (bounds rfl).1, (bounds rfl).2⟩

theorem readName_ok
    {pkt : Bytes} {outLen offset stop : Nat} {name : Bytes}
    (two : 2 ≤ outLen)
    (read : readName pkt outLen offset = .ok (name, stop)) :
    name.length < outLen ∧ offset < stop ∧ stop ≤ pkt.length := by
  rcases readName_cases pkt two offset with
    rejected | ⟨otherName, otherStop, otherRead, facts⟩
  · rw [rejected] at read
    cases read
  · rw [otherRead] at read
    cases read
    exact facts

theorem two_le_dnsMaxNameLen : 2 ≤ dnsMaxNameLen := by
  decide

/-! ## Questions and records -/

theorem readQuestion_cases (pkt : Bytes) (offset : Nat) :
    readQuestion pkt offset = .error .reject ∨
      ∃ question stop,
        readQuestion pkt offset = .ok (question, stop) ∧
          offset < stop ∧ stop ≤ pkt.length := by
  rw [readQuestion]
  rcases readName_cases pkt two_le_dnsMaxNameLen offset with
    rejected | ⟨qname, middle, read, _, progress, _⟩
  · rw [rejected]
    exact Or.inl rfl
  · rw [read]
    simp only [bind, Except.bind, pure, Except.pure]
    by_cases cut : pkt.length < middle + 4
    · exact Or.inl (if_pos cut)
    rw [if_neg cut]
    obtain ⟨qtype, readType⟩ :=
      exists_readU16 pkt middle (by omega)
    obtain ⟨qclass, readClass⟩ :=
      exists_readU16 pkt (middle + 2) (by omega)
    rw [readType, readClass]
    exact Or.inr ⟨_, _, rfl, by omega, by omega⟩

/-- A record's RDATA is the end of the record's own span. -/
theorem readRr_cases (pkt : Bytes) (offset : Nat) :
    readRr pkt offset = .error .reject ∨
      ∃ rr stop,
        readRr pkt offset = .ok (rr, stop) ∧
          offset < rr.rdata ∧ rr.rdata + rr.rdlength.toNat = stop ∧
            stop ≤ pkt.length := by
  rw [readRr]
  rcases readName_cases pkt two_le_dnsMaxNameLen offset with
    rejected | ⟨name, middle, read, _, progress, _⟩
  · rw [rejected]
    exact Or.inl rfl
  · rw [read]
    simp only [bind, Except.bind, pure, Except.pure]
    by_cases cut : pkt.length < middle + 10
    · exact Or.inl (if_pos cut)
    rw [if_neg cut]
    obtain ⟨type, readType⟩ :=
      exists_readU16 pkt middle (by omega)
    obtain ⟨rrclass, readClass⟩ :=
      exists_readU16 pkt (middle + 2) (by omega)
    obtain ⟨ttl, readTtl⟩ :=
      exists_readU32 pkt (middle + 4) (by omega)
    obtain ⟨rdlength, readLength⟩ :=
      exists_readU16 pkt (middle + 8) (by omega)
    rw [readType, readClass, readTtl, readLength]
    simp only
    by_cases short : pkt.length < middle + 10 + rdlength.toNat
    · exact Or.inl (if_pos short)
    rw [if_neg short]
    refine Or.inr ⟨_, _, rfl, ?_, rfl, by omega⟩
    show offset < middle + 10
    omega

theorem exists_readHeader {buf : Bytes} (long : 12 ≤ buf.length) :
    ∃ header, readHeader buf = .ok header := by
  obtain ⟨id, readId⟩ :=
    exists_readU16 buf 0 (by omega)
  obtain ⟨flags, readFlags⟩ :=
    exists_readU16 buf 2 (by omega)
  obtain ⟨qdcount, readQd⟩ :=
    exists_readU16 buf 4 (by omega)
  obtain ⟨ancount, readAn⟩ :=
    exists_readU16 buf 6 (by omega)
  obtain ⟨nscount, readNs⟩ :=
    exists_readU16 buf 8 (by omega)
  obtain ⟨arcount, readAr⟩ :=
    exists_readU16 buf 10 (by omega)
  simp [readHeader, readId, readFlags, readQd, readAn, readNs, readAr,
    bind, Except.bind, pure, Except.pure]

end DnsFirewall
