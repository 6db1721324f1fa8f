import DnsFirewall.Foundations.BigEndian
import DnsFirewall.Wire.Types

/-!
# The message builder

`dns_builder_t` and the functions that append a header, a question or a record
to it.  Every write goes through `put`; a write at or behind the end of the
buffer leaves the bytes alone and is remembered in `stray`.  The functions
return whether the C function returns zero, with the builder it leaves behind:
after a failure this can hold a part of the item.
-/

namespace DnsFirewall

open CString BigEndian

structure DnsBuilder where
  buf : Bytes
  pos : Nat
  stray : Bool
deriving DecidableEq, Repr

def dnsBuilderInit (buffer : Bytes) : DnsBuilder :=
  ⟨buffer, 0, false⟩

namespace DnsBuilder

def written (b : DnsBuilder) : Bytes :=
  b.buf.take b.pos

/-- Store the bytes at the position and move it behind them. -/
def put (b : DnsBuilder) (bytes : Bytes) : DnsBuilder :=
  if b.pos + bytes.length ≤ b.buf.length then
    { b with
      buf := b.buf.take b.pos ++ bytes ++ b.buf.drop (b.pos + bytes.length)
      pos := b.pos + bytes.length }
  else
    { b with pos := b.pos + bytes.length, stray := true }

/-- `builder_ensure` returns zero. -/
def ensure (b : DnsBuilder) (bytes : Nat) : Bool :=
  decide (b.pos + bytes ≤ b.buf.length)

end DnsBuilder

/-- The label loop of `write_name_uncompressed`, from the text still to be
written.  Every pass consumes a character, so `fuel` may be its length. -/
def writeLabels : Nat → DnsBuilder → Bytes → Bool × DnsBuilder
  | 0, b, _ => (true, b)
  | fuel + 1, b, start =>
      if start = [] then
        (true, b)
      else
        let label := start.takeWhile (· ≠ 46)
        if dnsMaxLabelLen < label.length then
          (false, b)
        else if b.ensure (1 + label.length) = false then
          (false, b)
        else
          let b := (b.put [label.length.toUInt8]).put label
          let rest := start.drop label.length
          let rest := if rest.head? = some 46 then rest.tail else rest
          writeLabels fuel b rest

def writeNameUncompressed (b : DnsBuilder) (name : Bytes) :
    Bool × DnsBuilder :=
  let name := content name
  if name = [] then
    (false, b)
  else
    match writeLabels name.length b name with
    | (false, b) => (false, b)
    | (true, b) =>
        if b.ensure 1 = false then
          (false, b)
        else
          (true, b.put [0])

def dnsBuildResponseHeader (b : DnsBuilder)
    (id flags qdcount ancount nscount arcount : UInt16) :
    Bool × DnsBuilder :=
  if b.ensure 12 = false then
    (false, b)
  else
    (true,
      (((((b.put (bytes16 id)).put (bytes16 flags)).put
        (bytes16 qdcount)).put (bytes16 ancount)).put
        (bytes16 nscount)).put (bytes16 arcount))

def dnsBuildQuestion (b : DnsBuilder) (qname : Bytes)
    (qtype qclass : UInt16) : Bool × DnsBuilder :=
  match writeNameUncompressed b qname with
  | (false, b) => (false, b)
  | (true, b) =>
      if b.ensure 4 = false then
        (false, b)
      else
        (true, (b.put (bytes16 qtype)).put (bytes16 qclass))

/-- `dns_build_rr`; `rdata` are the bytes behind the pointer, of which
`rdlength` are copied. -/
def dnsBuildRr (b : DnsBuilder) (name : Bytes) (type rrclass : UInt16)
    (ttl : UInt32) (rdata : Bytes) (rdlength : UInt16) :
    Bool × DnsBuilder :=
  match writeNameUncompressed b name with
  | (false, b) => (false, b)
  | (true, b) =>
      if b.ensure (10 + rdlength.toNat) = false then
        (false, b)
      else
        let b := (((b.put (bytes16 type)).put (bytes16 rrclass)).put
          (bytes32 ttl)).put (bytes16 rdlength)
        if rdlength = 0 then
          (true, b)
        else
          (true, b.put (rdata.take rdlength.toNat))

/-! ## Writes that fit -/

namespace DnsBuilder

theorem put_of_le
    {b : DnsBuilder} {bytes : Bytes}
    (room : b.pos + bytes.length ≤ b.buf.length) :
    b.put bytes =
      { b with
        buf :=
          b.buf.take b.pos ++ bytes ++ b.buf.drop (b.pos + bytes.length)
        pos := b.pos + bytes.length } :=
  if_pos room

@[simp]
theorem put_pos (b : DnsBuilder) (bytes : Bytes) :
    (b.put bytes).pos = b.pos + bytes.length := by
  rw [put]
  split <;> rfl

@[simp]
theorem put_buf_length (b : DnsBuilder) (bytes : Bytes) :
    (b.put bytes).buf.length = b.buf.length := by
  rw [put]
  split
  · simp only [List.length_append, List.length_take, List.length_drop]
    omega
  · rfl

theorem put_stray_of_le
    {b : DnsBuilder} {bytes : Bytes}
    (room : b.pos + bytes.length ≤ b.buf.length) :
    (b.put bytes).stray = b.stray := by
  rw [put_of_le room]

/-- What was written before stays, and the new bytes stand behind it. -/
theorem written_put
    {b : DnsBuilder} {bytes : Bytes}
    (room : b.pos + bytes.length ≤ b.buf.length) :
    (b.put bytes).written = b.written ++ bytes := by
  rw [put_of_le room]
  rw [written]
  have prefixLength :
      (b.buf.take b.pos ++ bytes).length = b.pos + bytes.length := by
    simp only [List.length_append, List.length_take]
    omega
  exact List.take_left' prefixLength

theorem put_put
    {b : DnsBuilder} {first second : Bytes}
    (room : b.pos + (first.length + second.length) ≤ b.buf.length) :
    (b.put first).put second = b.put (first ++ second) := by
  have firstRoom : b.pos + first.length ≤ b.buf.length := by omega
  have bothRoom :
      b.pos + (first ++ second).length ≤ b.buf.length := by
    simpa only [List.length_append] using room
  have secondRoom :
      (b.put first).pos + second.length ≤ (b.put first).buf.length := by
    simp only [put_pos, put_buf_length]
    omega
  have kept :
      (b.put first).buf.take (b.pos + first.length) =
        b.buf.take b.pos ++ first := by
    have appended := written_put firstRoom
    simpa only [written, put_pos] using appended
  have behind :
      (b.put first).buf.drop (b.pos + (first.length + second.length)) =
        b.buf.drop (b.pos + (first.length + second.length)) := by
    rw [put_of_le firstRoom, ← Nat.add_assoc]
    have prefixLength :
        (b.buf.take b.pos ++ first).length = b.pos + first.length := by
      simp only [List.length_append, List.length_take]
      omega
    rw [← List.drop_drop, List.drop_left' prefixLength, List.drop_drop]
  rw [put_of_le secondRoom, put_of_le bothRoom]
  simp only [put_pos, kept, behind, List.length_append,
    List.append_assoc, Nat.add_assoc, put_stray_of_le firstRoom]

theorem ensure_eq_false {b : DnsBuilder} {bytes : Nat} :
    b.ensure bytes = false ↔ b.buf.length < b.pos + bytes := by
  simp [ensure]

theorem not_ensure_eq_false
    {b : DnsBuilder} {bytes : Nat}
    (room : b.pos + bytes ≤ b.buf.length) :
    ¬ b.ensure bytes = false := by
  rw [ensure_eq_false]
  omega

end DnsBuilder

def headerBytes (id flags qdcount ancount nscount arcount : UInt16) :
    Bytes :=
  bytes16 id ++ bytes16 flags ++ bytes16 qdcount ++ bytes16 ancount ++
    bytes16 nscount ++ bytes16 arcount

@[simp]
theorem headerBytes_length
    (id flags qdcount ancount nscount arcount : UInt16) :
    (headerBytes id flags qdcount ancount nscount arcount).length = 12 := by
  simp [headerBytes]

theorem dnsBuildResponseHeader_of_le
    {b : DnsBuilder} (id flags qdcount ancount nscount arcount : UInt16)
    (room : b.pos + 12 ≤ b.buf.length) :
    dnsBuildResponseHeader b id flags qdcount ancount nscount arcount =
      (true,
        b.put (headerBytes id flags qdcount ancount nscount arcount)) := by
  rw [dnsBuildResponseHeader, headerBytes]
  rw [if_neg (DnsBuilder.not_ensure_eq_false room)]
  simp (disch :=
      (simp only [DnsBuilder.put_pos, DnsBuilder.put_buf_length,
        List.length_append, bytes16_length]; omega)) only
    [DnsBuilder.put_put, List.append_assoc]

/-! ## What was written stays -/

/-- The second builder continues the first one: the position has not gone
back, and the bytes in front of the old position are the same. -/
structure DnsBuilder.Extends (b after : DnsBuilder) : Prop where
  pos_le : b.pos ≤ after.pos
  kept : after.buf.take b.pos = b.buf.take b.pos

namespace DnsBuilder.Extends

theorem refl (b : DnsBuilder) : b.Extends b :=
  ⟨Nat.le_refl _, rfl⟩

theorem trans
    {first second third : DnsBuilder}
    (firstStep : first.Extends second)
    (secondStep : second.Extends third) :
    first.Extends third := by
  refine ⟨Nat.le_trans firstStep.pos_le secondStep.pos_le, ?_⟩
  have kept := congrArg (List.take first.pos) secondStep.kept
  rw [List.take_take, List.take_take,
    Nat.min_eq_left firstStep.pos_le] at kept
  rw [kept, firstStep.kept]

theorem put (b : DnsBuilder) (bytes : Bytes) : b.Extends (b.put bytes) := by
  refine ⟨by rw [put_pos]; omega, ?_⟩
  rw [DnsBuilder.put]
  split
  · rename_i room
    have length : (b.buf.take b.pos).length = b.pos := by
      rw [List.length_take]
      omega
    simp only
    rw [List.append_assoc, List.take_left' length]
  · rfl

/-- The front of what was written stays. -/
theorem written_take
    {b after : DnsBuilder} (step : b.Extends after) {count : Nat}
    (within : count ≤ b.pos) :
    after.written.take count = b.written.take count := by
  have kept := congrArg (List.take count) step.kept
  rw [List.take_take, List.take_take, Nat.min_eq_left within] at kept
  unfold DnsBuilder.written
  rw [List.take_take, List.take_take, Nat.min_eq_left within,
    Nat.min_eq_left (Nat.le_trans within step.pos_le), kept]

end DnsBuilder.Extends

open DnsBuilder

theorem extends_writeLabels (fuel : Nat) (b : DnsBuilder) (start : Bytes) :
    b.Extends (writeLabels fuel b start).2 := by
  induction fuel generalizing b start with
  | zero => exact .refl b
  | succ fuel inductionHypothesis =>
      rw [writeLabels]
      simp only
      split
      · exact .refl b
      · split
        · exact .refl b
        · split
          · exact .refl b
          · exact
              ((Extends.put b _).trans (Extends.put _ _)).trans
                (inductionHypothesis _ _)

theorem extends_writeNameUncompressed (b : DnsBuilder) (name : Bytes) :
    b.Extends (writeNameUncompressed b name).2 := by
  unfold writeNameUncompressed
  simp only
  split
  · exact .refl b
  · have labels :=
      extends_writeLabels (content name).length b (content name)
    split
    · rename_i after result
      rw [result] at labels
      exact labels
    · rename_i after result
      rw [result] at labels
      split
      · exact labels
      · exact labels.trans (.put _ _)

/-- Whether they succeed or not, the builder functions only append. -/
theorem extends_dnsBuildQuestion
    (b : DnsBuilder) (qname : Bytes) (qtype qclass : UInt16) :
    b.Extends (dnsBuildQuestion b qname qtype qclass).2 := by
  have name := extends_writeNameUncompressed b qname
  rw [dnsBuildQuestion]
  split
  · rename_i after result
    rw [result] at name
    exact name
  · rename_i after result
    rw [result] at name
    split
    · exact name
    · exact name.trans ((Extends.put _ _).trans (.put _ _))

theorem extends_dnsBuildRr
    (b : DnsBuilder) (name : Bytes) (type rrclass : UInt16)
    (ttl : UInt32) (rdata : Bytes) (rdlength : UInt16) :
    b.Extends (dnsBuildRr b name type rrclass ttl rdata rdlength).2 := by
  have owner := extends_writeNameUncompressed b name
  rw [dnsBuildRr]
  split
  · rename_i after result
    rw [result] at owner
    exact owner
  · rename_i after result
    rw [result] at owner
    split
    · exact owner
    · have fields :=
        owner.trans
          ((Extends.put after (bytes16 type)).trans
            ((Extends.put _ (bytes16 rrclass)).trans
              ((Extends.put _ (bytes32 ttl)).trans
                (.put _ (bytes16 rdlength)))))
      simp only
      split
      · exact fields
      · exact fields.trans (.put _ _)

end DnsFirewall
