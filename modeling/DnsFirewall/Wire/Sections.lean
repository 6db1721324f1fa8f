import DnsFirewall.Wire.Reader
import Mathlib.Logic.Function.Basic

/-!
# The arrays of a message

`dns_parse_message` with what the parser leaves out: the four section pointers
of the structure it fills, what they were before, and the outcomes of its four
calls of `calloc`.  Every exit behind the test of the length leaves pointers
that are null or were allocated by the call; the exit in front of it leaves
whatever was there.
-/

namespace DnsFirewall

open CString Cursor

/-- The sections of a message, in the order in which they are allocated and
released. -/
inductive MessageSection where
  | questions
  | answers
  | authorities
  | additionals
deriving DecidableEq, Repr

abbrev Address := Nat

/-- The section pointers of a `dns_message_t`; `none` is the null pointer. -/
abbrev SectionPointers := MessageSection → Option Address

/-- The pointers, and the arrays that the call has allocated, newest first. -/
structure ParseMemory where
  pointers : SectionPointers
  allocated : List Address

namespace ParseMemory

/-- `memset(msg, 0, sizeof(*msg))`. -/
def cleared : ParseMemory :=
  ⟨fun _ => none, []⟩

/-- The result of a `calloc` is stored in the structure. -/
def assign (m : ParseMemory) (s : MessageSection) :
    Option Address → ParseMemory
  | none => { m with pointers := Function.update m.pointers s none }
  | some array =>
      { pointers := Function.update m.pointers s (some array)
        allocated := array :: m.allocated }

/-- Every pointer is null or was allocated by the call. -/
def Owned (m : ParseMemory) : Prop :=
  ∀ s, m.pointers s = none ∨
    ∃ array, array ∈ m.allocated ∧ m.pointers s = some array

end ParseMemory

/-- One section of `dns_parse_message`: its array, then its items. -/
def parseSection {α : Type} (calloc : MessageSection → Option Address)
    (s : MessageSection) (count : UInt16) (read : Reader ReadError α)
    (offset : Nat) (m : ParseMemory) :
    Except ReadError (List α × Nat) × ParseMemory :=
  if count = 0 then
    (.ok ([], offset), m)
  else
    match calloc s with
    | none => (.error .reject, m.assign s none)
    | some array =>
        (readMany read count.toNat offset, m.assign s (some array))

/-- A section that fails ends the parser with the memory as it is. -/
def andThen {α β : Type}
    (step : Except ReadError (List α × Nat) × ParseMemory)
    (next :
      List α → Nat → ParseMemory → Except ReadError β × ParseMemory) :
    Except ReadError β × ParseMemory :=
  match step with
  | (.error failure, m) => (.error failure, m)
  | (.ok (items, offset), m) => next items offset m

/-- `dns_parse_message`, on a structure with the given pointers. -/
def dnsParseMessageInto (calloc : MessageSection → Option Address)
    (buf : Bytes) (previous : SectionPointers) :
    Except ReadError DnsMessage × ParseMemory :=
  if buf.length < 12 then
    (.error .reject, ⟨previous, []⟩)
  else
    match readHeader buf with
    | .error failure => (.error failure, .cleared)
    | .ok header =>
        andThen
          (parseSection calloc .questions header.qdcount (readQuestion buf)
            12 .cleared) fun questions offset m =>
        andThen
          (parseSection calloc .answers header.ancount (readRr buf) offset
            m) fun answers offset m =>
        andThen
          (parseSection calloc .authorities header.nscount (readRr buf)
            offset m) fun authorities offset m =>
        andThen
          (parseSection calloc .additionals header.arcount (readRr buf)
            offset m) fun additionals _ m =>
        (.ok ⟨header, questions, answers, authorities, additionals⟩, m)

/-- The addresses that `dns_free_message` passes to `free`; `free(NULL)` does
nothing. -/
def dnsFreeMessage (pointers : SectionPointers) : List Address :=
  [MessageSection.questions, .answers, .authorities,
    .additionals].filterMap pointers

/-- The arrays that `process_dns_query` releases when the parser fails. -/
def releasedOnFailure (calloc : MessageSection → Option Address)
    (buf : Bytes) (previous : SectionPointers) : List Address :=
  match dnsParseMessageInto calloc buf previous with
  | (.error _, m) => dnsFreeMessage m.pointers
  | (.ok _, _) => []

/-! ## The parser of the packet -/

/-- An array that is allocated leaves the reading of its section alone. -/
theorem parseSection_reads
    {α : Type} {calloc : MessageSection → Option Address}
    {s : MessageSection} {array : Address} (allocates : calloc s = some array)
    (count : UInt16) (read : Reader ReadError α) (offset : Nat)
    (m : ParseMemory) :
    (parseSection calloc s count read offset m).1 =
      readMany read count.toNat offset := by
  rw [parseSection]
  by_cases empty : count = 0
  · rw [if_pos empty, empty]
    rfl
  · rw [if_neg empty, allocates]

theorem andThen_fst
    {α β : Type} {step : Except ReadError (List α × Nat) × ParseMemory}
    {next : List α → Nat → ParseMemory → Except ReadError β × ParseMemory}
    {read : Except ReadError (List α × Nat)}
    {rest : List α × Nat → Except ReadError β}
    (first : step.1 = read)
    (second : ∀ items offset m, (next items offset m).1 = rest (items, offset)) :
    (andThen step next).1 = read >>= rest := by
  obtain ⟨result, m⟩ := step
  subst first
  cases result with
  | error failure => rfl
  | ok found =>
      obtain ⟨items, offset⟩ := found
      exact second items offset m

/-- When no allocation fails, the value is that of the parser of the packet.
-/
theorem dnsParseMessageInto_fst
    {calloc : MessageSection → Option Address}
    (allocates : ∀ s, ∃ array, calloc s = some array)
    (buf : Bytes) (previous : SectionPointers) :
    (dnsParseMessageInto calloc buf previous).1 = dnsParseMessage buf := by
  rw [dnsParseMessageInto, dnsParseMessage]
  by_cases short : buf.length < 12
  · rw [if_pos short, if_pos short]
  · rw [if_neg short, if_neg short]
    cases readHeader buf with
    | error failure => rfl
    | ok header =>
        have reads :
            ∀ {α : Type} (s : MessageSection) (count : UInt16)
              (read : Reader ReadError α) (offset : Nat) (m : ParseMemory),
              (parseSection calloc s count read offset m).1 =
                readMany read count.toNat offset := by
          intro α s count read offset m
          obtain ⟨array, isArray⟩ := allocates s
          exact parseSection_reads isArray count read offset m
        apply andThen_fst (reads _ _ _ _ _)
        intro questions offset m
        apply andThen_fst (reads _ _ _ _ _)
        intro answers offset m
        apply andThen_fst (reads _ _ _ _ _)
        intro authorities offset m
        apply andThen_fst (reads _ _ _ _ _)
        intro additionals offset m
        rfl

/-! ## What the structure points to -/

theorem ParseMemory.cleared_owned : ParseMemory.cleared.Owned :=
  fun _ => Or.inl rfl

theorem ParseMemory.Owned.assign
    {m : ParseMemory} (owned : m.Owned) (s : MessageSection)
    (result : Option Address) :
    (m.assign s result).Owned := by
  intro other
  by_cases same : other = s
  · subst same
    cases result with
    | none => exact Or.inl (Function.update_self _ _ _)
    | some array =>
        exact
          Or.inr ⟨array, List.mem_cons_self, Function.update_self _ _ _⟩
  · cases result with
    | none =>
        simp only [ParseMemory.assign, Function.update_of_ne same]
        exact owned other
    | some array =>
        simp only [ParseMemory.assign, Function.update_of_ne same]
        rcases owned other with null | ⟨older, allocated, points⟩
        · exact Or.inl null
        · exact
            Or.inr ⟨older, List.mem_cons_of_mem array allocated, points⟩

theorem parseSection_owned
    {α : Type} (calloc : MessageSection → Option Address)
    (s : MessageSection) (count : UInt16) (read : Reader ReadError α)
    (offset : Nat) {m : ParseMemory} (owned : m.Owned) :
    (parseSection calloc s count read offset m).2.Owned := by
  rw [parseSection]
  split
  · exact owned
  · split
    · exact owned.assign s none
    · rename_i array allocates
      exact owned.assign s (some array)

theorem andThen_owned
    {α β : Type} {step : Except ReadError (List α × Nat) × ParseMemory}
    {next : List α → Nat → ParseMemory → Except ReadError β × ParseMemory}
    (first : step.2.Owned)
    (second :
      ∀ items offset m, m.Owned → (next items offset m).2.Owned) :
    (andThen step next).2.Owned := by
  obtain ⟨result, m⟩ := step
  cases result with
  | error failure => exact first
  | ok found =>
      obtain ⟨items, offset⟩ := found
      exact second items offset m first

/-- Behind the test of the length the structure only ever points to arrays of
the call. -/
theorem dnsParseMessageInto_owned
    (calloc : MessageSection → Option Address) {buf : Bytes}
    (long : 12 ≤ buf.length) (previous : SectionPointers) :
    (dnsParseMessageInto calloc buf previous).2.Owned := by
  rw [dnsParseMessageInto]
  rw [if_neg (Nat.not_lt.mpr long)]
  cases readHeader buf with
  | error failure => exact ParseMemory.cleared_owned
  | ok header =>
      apply andThen_owned
        (parseSection_owned calloc _ _ _ _ ParseMemory.cleared_owned)
      intro questions offset m owned
      apply andThen_owned (parseSection_owned calloc _ _ _ _ owned)
      intro answers offset m owned
      apply andThen_owned (parseSection_owned calloc _ _ _ _ owned)
      intro authorities offset m owned
      apply andThen_owned (parseSection_owned calloc _ _ _ _ owned)
      intro additionals offset m owned
      exact owned

theorem mem_dnsFreeMessage
    {pointers : SectionPointers} {array : Address} :
    array ∈ dnsFreeMessage pointers ↔ ∃ s, pointers s = some array := by
  rw [dnsFreeMessage]
  rw [List.mem_filterMap]
  constructor
  · intro given
    obtain ⟨s, -, points⟩ := given
    exact ⟨s, points⟩
  · intro given
    obtain ⟨s, points⟩ := given
    refine ⟨s, ?_, points⟩
    cases s <;> simp

/-- What the cleanup releases was allocated by the call. -/
theorem ParseMemory.Owned.releases
    {m : ParseMemory} (owned : m.Owned) {array : Address}
    (released : array ∈ dnsFreeMessage m.pointers) :
    array ∈ m.allocated := by
  obtain ⟨s, points⟩ := mem_dnsFreeMessage.mp released
  rcases owned s with null | ⟨other, allocated, pointsTo⟩
  · rw [null] at points
    cases points
  · rw [pointsTo] at points
    cases points
    exact allocated

/-- A structure is safe to free after the parser exactly when the parser gets
to the `memset`, or had nothing to clear. -/
theorem dnsParseMessageInto_owned_iff
    (calloc : MessageSection → Option Address) (buf : Bytes)
    (previous : SectionPointers) :
    ((dnsParseMessageInto calloc buf previous).2.Owned ∧
        ∀ array, array ∈ releasedOnFailure calloc buf previous →
          array ∈ (dnsParseMessageInto calloc buf previous).2.allocated) ↔
      12 ≤ buf.length ∨ ∀ s, previous s = none := by
  have releases :
      (dnsParseMessageInto calloc buf previous).2.Owned →
        ∀ array, array ∈ releasedOnFailure calloc buf previous →
          array ∈
            (dnsParseMessageInto calloc buf previous).2.allocated := by
    intro owned array released
    unfold releasedOnFailure at released
    split at released
    · rename_i failure m result
      rw [result] at owned ⊢
      exact owned.releases released
    · cases released
  constructor
  · intro given
    obtain ⟨owned, -⟩ := given
    by_contra neither
    obtain ⟨short, garbage⟩ := not_or.mp neither
    apply garbage
    intro s
    unfold dnsParseMessageInto at owned
    rw [if_pos (Nat.not_le.mp short)] at owned
    rcases owned s with null | ⟨array, allocated, -⟩
    · exact null
    · cases allocated
  · intro safe
    have owned : (dnsParseMessageInto calloc buf previous).2.Owned := by
      by_cases long : 12 ≤ buf.length
      · exact dnsParseMessageInto_owned calloc long previous
      · unfold dnsParseMessageInto
        rw [if_pos (Nat.not_le.mp long)]
        exact fun s => Or.inl (safe.resolve_left long s)
    exact ⟨owned, releases owned⟩

/-- A TCP query of two bytes, where the stack holds an address in the place of
the pointer to the questions. -/
theorem short_query_releases_garbage :
    ¬ ∀ (calloc : MessageSection → Option Address) (buf : Bytes)
        (previous : SectionPointers),
      (dnsParseMessageInto calloc buf previous).2.Owned ∧
        ∀ array, array ∈ releasedOnFailure calloc buf previous →
          array ∈
            (dnsParseMessageInto calloc buf previous).2.allocated := by
  intro safe
  have released :=
    (safe (fun _ => none) [0, 1]
      (fun s => if s = .questions then some 4096 else none)).2 4096
      (by decide)
  exact absurd released (by decide)

end DnsFirewall
