import DnsFirewall.Foundations.Runs
import DnsFirewall.Wire.Builder

/-!
# The builder stays inside its buffer

Any sequence of builder calls on one buffer, whatever their arguments are and
whether they succeed or fail: the position only moves on, no byte is written
at or behind the end, and what was written stays.
-/

namespace DnsFirewall

open CString BigEndian DnsBuilder Runs

/-- The second builder continues the first one inside the same buffer. -/
structure DnsBuilder.Within (b after : DnsBuilder) : Prop where
  appends : b.Extends after
  size : after.buf.length = b.buf.length
  inside : after.pos ≤ after.buf.length
  stray : after.stray = b.stray

namespace DnsBuilder.Within

theorem refl {b : DnsBuilder} (inside : b.pos ≤ b.buf.length) :
    b.Within b :=
  ⟨.refl b, rfl, inside, rfl⟩

theorem trans
    {first second third : DnsBuilder} (left : first.Within second)
    (right : second.Within third) :
    first.Within third where
  appends := left.appends.trans right.appends
  size := right.size.trans left.size
  inside := right.inside
  stray := right.stray.trans left.stray

theorem put
    {b : DnsBuilder} {bytes : Bytes}
    (room : b.pos + bytes.length ≤ b.buf.length) :
    b.Within (b.put bytes) where
  appends := .put b bytes
  size := put_buf_length b bytes
  inside := by
    rw [put_pos, put_buf_length]
    exact room
  stray := put_stray_of_le room

/-- A write that `builder_ensure` has made room for. -/
theorem put_of_ensure
    {b : DnsBuilder} {bytes : Bytes} {count : Nat}
    (enough : ¬ b.ensure count = false) (fits : bytes.length ≤ count) :
    b.Within (b.put bytes) := by
  rw [ensure_eq_false, Nat.not_lt] at enough
  apply put
  omega

end DnsBuilder.Within

/-! ## One call -/

/-- The label loop writes a label only after it has found room for it. -/
theorem within_writeLabels
    {fuel : Nat} {b : DnsBuilder} {start : Bytes}
    (inside : b.pos ≤ b.buf.length) :
    b.Within (writeLabels fuel b start).2 := by
  induction fuel generalizing b start with
  | zero => exact .refl inside
  | succ fuel inductionHypothesis =>
      rw [writeLabels]
      simp only
      split
      · exact .refl inside
      · split
        · exact .refl inside
        · split
          · exact .refl inside
          · rename_i enough
            generalize start.takeWhile (· ≠ 46) = label at enough ⊢
            have both :
                (b.put [label.length.toUInt8]).put label =
                  b.put (label.length.toUInt8 :: label) :=
              put_put (by
                rw [ensure_eq_false, Nat.not_lt] at enough
                exact enough)
            have here :
                b.Within (b.put (label.length.toUInt8 :: label)) :=
              .put_of_ensure enough (by rw [List.length_cons]; omega)
            rw [both]
            exact here.trans (inductionHypothesis here.inside)

theorem within_writeNameUncompressed
    {b : DnsBuilder} (inside : b.pos ≤ b.buf.length) (name : Bytes) :
    b.Within (writeNameUncompressed b name).2 := by
  have labels :=
    @within_writeLabels (content name).length b (content name) inside
  rw [writeNameUncompressed]
  split
  · exact .refl inside
  · split
    · rename_i after result
      rw [result] at labels
      exact labels
    · rename_i after result
      rw [result] at labels
      split
      · exact labels
      · rename_i enough
        exact labels.trans (.put_of_ensure enough (Nat.le_refl 1))

theorem within_dnsBuildResponseHeader
    {b : DnsBuilder} (inside : b.pos ≤ b.buf.length)
    (id flags qdcount ancount nscount arcount : UInt16) :
    b.Within
      (dnsBuildResponseHeader b id flags qdcount ancount nscount
        arcount).2 := by
  by_cases room : b.pos + 12 ≤ b.buf.length
  · rw [dnsBuildResponseHeader_of_le id flags qdcount ancount nscount
      arcount room]
    apply Within.put
    rw [headerBytes_length]
    exact room
  · rw [dnsBuildResponseHeader,
      if_pos (ensure_eq_false.mpr (Nat.lt_of_not_le room))]
    exact .refl inside

theorem within_dnsBuildQuestion
    {b : DnsBuilder} (inside : b.pos ≤ b.buf.length) (qname : Bytes)
    (qtype qclass : UInt16) :
    b.Within (dnsBuildQuestion b qname qtype qclass).2 := by
  have name := within_writeNameUncompressed inside qname
  rw [dnsBuildQuestion]
  split
  · rename_i after result
    rw [result] at name
    exact name
  · rename_i after result
    rw [result] at name
    split
    · exact name
    · rename_i enough
      have fields :
          (after.put (bytes16 qtype)).put (bytes16 qclass) =
            after.put (bytes16 qtype ++ bytes16 qclass) :=
        put_put (by
          rw [ensure_eq_false, Nat.not_lt] at enough
          exact enough)
      rw [fields]
      exact name.trans (.put_of_ensure enough (Nat.le_refl 4))

/-- The fixed fields of a record are one write, and its data another. -/
theorem within_dnsBuildRr
    {b : DnsBuilder} (inside : b.pos ≤ b.buf.length) (name : Bytes)
    (type rrclass : UInt16) (ttl : UInt32) (rdata : Bytes)
    (rdlength : UInt16) :
    b.Within (dnsBuildRr b name type rrclass ttl rdata rdlength).2 := by
  have owner := within_writeNameUncompressed inside name
  rw [dnsBuildRr]
  split
  · rename_i after result
    rw [result] at owner
    exact owner
  · rename_i after result
    rw [result] at owner
    split
    · exact owner
    · rename_i enough
      rw [ensure_eq_false, Nat.not_lt] at enough
      let fixed :=
        bytes16 type ++
          (bytes16 rrclass ++ (bytes32 ttl ++ bytes16 rdlength))
      have fixedLength : fixed.length = 10 := rfl
      have fields :
          (((after.put (bytes16 type)).put (bytes16 rrclass)).put
              (bytes32 ttl)).put (bytes16 rdlength) =
            after.put fixed := by
        simp (disch :=
            (simp only [put_pos, put_buf_length, List.length_append,
              bytes16_length, bytes32_length]; omega)) only
          [put_put, List.append_assoc, fixed]
      have written : after.Within (after.put fixed) :=
        .put (by omega)
      have copied :
          (rdata.take rdlength.toNat).length ≤ rdlength.toNat :=
        List.length_take_le _ _
      rw [fields]
      simp only
      split
      · exact owner.trans written
      · apply owner.trans
        apply written.trans
        apply Within.put
        rw [put_pos, put_buf_length]
        omega

/-! ## Every sequence of calls -/

/-- A call of the builder, with its arguments behind the builder. -/
inductive BuilderCall where
  | header (id flags qdcount ancount nscount arcount : UInt16)
  | question (qname : Bytes) (qtype qclass : UInt16)
  | rr (name : Bytes) (type rrclass : UInt16) (ttl : UInt32)
      (rdata : Bytes) (rdlength : UInt16)

/-- The builder behind a call, whatever the call returns. -/
def builderCall (b : DnsBuilder) : BuilderCall → DnsBuilder
  | .header id flags qdcount ancount nscount arcount =>
      (dnsBuildResponseHeader b id flags qdcount ancount nscount arcount).2
  | .question qname qtype qclass =>
      (dnsBuildQuestion b qname qtype qclass).2
  | .rr name type rrclass ttl rdata rdlength =>
      (dnsBuildRr b name type rrclass ttl rdata rdlength).2

theorem within_builderCall
    {b : DnsBuilder} (inside : b.pos ≤ b.buf.length) (call : BuilderCall) :
    b.Within (builderCall b call) := by
  cases call with
  | header id flags qdcount ancount nscount arcount =>
      exact
        within_dnsBuildResponseHeader inside id flags qdcount ancount
          nscount arcount
  | question qname qtype qclass =>
      exact within_dnsBuildQuestion inside qname qtype qclass
  | rr name type rrclass ttl rdata rdlength =>
      exact within_dnsBuildRr inside name type rrclass ttl rdata rdlength

theorem within_run
    {b : DnsBuilder} (inside : b.pos ≤ b.buf.length)
    (calls : List BuilderCall) :
    b.Within (run builderCall b calls) := by
  induction calls generalizing b with
  | nil => exact .refl inside
  | cons call calls inductionHypothesis =>
      have here := within_builderCall inside call
      rw [run_cons]
      exact here.trans (inductionHypothesis here.inside)

/-- Over any sequence of calls the position stays inside the buffer and no
byte is written at or behind its end, and a call moves the position only
forward and keeps the bytes in front of it. -/
theorem builder_stays_inside (buffer : Bytes) (calls : List BuilderCall) :
    (run builderCall (dnsBuilderInit buffer) calls).pos ≤ buffer.length ∧
      (run builderCall (dnsBuilderInit buffer) calls).buf.length =
        buffer.length ∧
      (run builderCall (dnsBuilderInit buffer) calls).stray = false ∧
        ∀ before call after, calls = before ++ call :: after →
          let b := run builderCall (dnsBuilderInit buffer) before
          b.pos ≤ (builderCall b call).pos ∧
            (builderCall b call).buf.take b.pos = b.buf.take b.pos := by
  have start :
      (dnsBuilderInit buffer).pos ≤ (dnsBuilderInit buffer).buf.length :=
    Nat.zero_le _
  have whole := within_run start calls
  have inside := whole.inside
  rw [whole.size] at inside
  refine ⟨inside, whole.size, whole.stray, ?_⟩
  intro before call after _
  have here :=
    within_builderCall (within_run start before).inside call
  exact ⟨here.appends.pos_le, here.appends.kept⟩

end DnsFirewall
