import Mathlib.Data.List.Basic

/-!
# Writing into fixed arrays

A run that fills arrays of fixed sizes from their starts.  The part of an
array that is written never exceeds it, since a run stops at the first element
that would be written behind the end of its array.  That it never stops there
is checked one write after the other.
-/

namespace DnsFirewall.FixedArrays

variable {A E : Type} {size : A → Nat} {array : A}

/-- Why a run stops: it writes behind the end of an array, or it reads or
writes through a pointer to nothing. -/
inductive Stop (A : Type) where
  | past (array : A)
  | fault
deriving DecidableEq, Repr

/-- The written part at the start of an array. -/
structure Filled (E : Type) (size : A → Nat) (array : A) where
  elements : List E
  inside : elements.length ≤ size array

namespace Filled

/-- Nothing is written yet. -/
def empty : Filled E size array :=
  ⟨[], Nat.zero_le _⟩

/-- There is room for the elements behind the ones that are there. -/
def extend (filled : Filled E size array) (elements : List E)
    (room : filled.elements.length + elements.length ≤ size array) :
    Filled E size array :=
  ⟨filled.elements ++ elements, by rw [List.length_append]; exact room⟩

/-- The elements are written behind the ones that are there. -/
def write (filled : Filled E size array) (elements : List E) :
    Except (Stop A) (Filled E size array) :=
  if room : filled.elements.length + elements.length ≤ size array then
    .ok (filled.extend elements room)
  else
    .error (.past array)

/-- A text that is shorter than the array, and its end. -/
def ended (text : List E) (ending : E) (short : text.length < size array) :
    Filled E size array :=
  ⟨text ++ [ending], by
    rw [List.length_append, List.length_singleton]
    exact short⟩

@[simp]
theorem elements_ended
    (text : List E) (ending : E) (short : text.length < size array) :
    (ended text ending short).elements = text ++ [ending] :=
  rfl

@[simp]
theorem elements_empty :
    (empty : Filled E size array).elements = [] :=
  rfl

@[simp]
theorem elements_extend
    (filled : Filled E size array) (elements : List E)
    (room : filled.elements.length + elements.length ≤ size array) :
    (filled.extend elements room).elements = filled.elements ++ elements :=
  rfl

@[simp]
theorem length_extend
    (filled : Filled E size array) (elements : List E)
    (room : filled.elements.length + elements.length ≤ size array) :
    (filled.extend elements room).elements.length =
      filled.elements.length + elements.length :=
  List.length_append

theorem write_eq_ok
    {filled : Filled E size array} {elements : List E}
    (room : filled.elements.length + elements.length ≤ size array) :
    filled.write elements = .ok (filled.extend elements room) :=
  dif_pos room

theorem write_nil (filled : Filled E size array) :
    filled.write [] = .ok filled := by
  have room : filled.elements.length + ([] : List E).length ≤ size array :=
    filled.inside
  rw [write_eq_ok room]
  simp only [extend, List.append_nil]

end Filled

/-- No element is written behind the end of an array. -/
def Inside {R : Type} (run : Except (Stop A) R) : Prop :=
  ∀ array, run ≠ .error (.past array)

variable {R : Type}

@[simp]
theorem inside_ok (result : R) :
    Inside (A := A) (Except.ok result) := by
  intro array stopped
  cases stopped

@[simp]
theorem inside_fault :
    Inside (R := R) (.error (Stop.fault : Stop A)) := by
  intro array stopped
  cases stopped

/-- A run and what follows it. -/
theorem inside_bind_iff {S : Type}
    (run : Except (Stop A) R) (next : R → Except (Stop A) S) :
    Inside (run >>= next) ↔
      Inside run ∧ ∀ result, run = .ok result → Inside (next result) := by
  cases run with
  | ok result =>
      constructor
      · intro inside
        refine ⟨inside_ok result, ?_⟩
        intro _ given
        cases given
        exact inside
      · intro inside
        exact inside.2 result rfl
  | error stop =>
      constructor
      · intro inside
        refine ⟨?_, ?_⟩
        · intro array given
          cases given
          exact inside array rfl
        · intro _ given
          cases given
      · rintro ⟨inside, _⟩ array ⟨⟩
        exact inside array rfl

namespace Filled

/-- A write that has room goes on with what it has written. -/
theorem write_bind
    {filled : Filled E size array} {elements : List E}
    (room : filled.elements.length + elements.length ≤ size array)
    (next : Filled E size array → Except (Stop A) R) :
    filled.write elements >>= next = next (filled.extend elements room) := by
  rw [write_eq_ok room]
  exact rfl

theorem write_eq_error
    {filled : Filled E size array} {elements : List E}
    (noRoom : ¬ filled.elements.length + elements.length ≤ size array) :
    filled.write elements = .error (.past array) :=
  dif_neg noRoom

/-- Two writes behind each other are one write. -/
theorem write_write
    (filled : Filled E size array) (first second : List E) :
    (filled.write first >>= fun written => written.write second) =
      filled.write (first ++ second) := by
  by_cases room : filled.elements.length + first.length ≤ size array
  · rw [write_bind room]
    by_cases more :
        (filled.extend first room).elements.length + second.length ≤
          size array
    · have both :
          filled.elements.length + (first ++ second).length ≤
            size array := by
        rw [length_extend] at more
        rw [List.length_append]
        omega
      rw [write_eq_ok more, write_eq_ok both]
      simp only [extend, List.append_assoc]
    · have noRoom :
          ¬ filled.elements.length + (first ++ second).length ≤
            size array := by
        rw [length_extend] at more
        rw [List.length_append]
        omega
      rw [write_eq_error more, write_eq_error noRoom]
  · have noRoom :
        ¬ filled.elements.length + (first ++ second).length ≤
          size array := by
      rw [List.length_append]
      omega
    rw [write_eq_error room, write_eq_error noRoom]
    rfl

/-- A text that is shorter than its array is written to it, and its end
behind it. -/
theorem write_ended
    {text : List E} (ending : E) (short : text.length < size array) :
    ((empty : Filled E size array).write text >>= fun written =>
        written.write [ending]) =
      .ok (ended text ending short) := by
  have forText :
      (empty : Filled E size array).elements.length + text.length ≤
        size array := by
    rw [elements_empty, List.length_nil]
    omega
  have forEnding :
      ((empty : Filled E size array).extend text forText).elements.length +
          [ending].length ≤
        size array := by
    rw [elements_extend, elements_empty, List.nil_append,
      List.length_singleton]
    exact short
  rw [write_bind forText, write_eq_ok forEnding]
  exact rfl

theorem write_ended_bind
    {text : List E} (ending : E) (short : text.length < size array)
    (next : Filled E size array → Except (Stop A) R) :
    ((empty : Filled E size array).write text >>= fun written =>
        written.write [ending] >>= next) =
      next (ended text ending short) := by
  rw [← bind_assoc, write_ended ending short]
  exact rfl

/-- One write and what follows it. -/
theorem inside_write_bind_iff
    (filled : Filled E size array) (elements : List E)
    (next : Filled E size array → Except (Stop A) R) :
    Inside (filled.write elements >>= next) ↔
      ∃ room : filled.elements.length + elements.length ≤ size array,
        Inside (next (filled.extend elements room)) := by
  by_cases room :
      filled.elements.length + elements.length ≤ size array
  · rw [write_bind room]
    exact ⟨fun inside => ⟨room, inside⟩, fun ⟨_, inside⟩ => inside⟩
  · rw [write_eq_error room]
    exact
      ⟨fun inside => absurd rfl (inside array), fun ⟨fits, _⟩ => absurd fits room⟩

/-- One write of a text and its end into an empty array, and what follows
it. -/
theorem inside_write_ended_bind_iff
    (text : List E) (ending : E)
    (next : Filled E size array → Except (Stop A) R) :
    Inside
        ((empty : Filled E size array).write (text ++ [ending]) >>= next) ↔
      ∃ short : text.length < size array,
        Inside (next (ended text ending short)) := by
  have fits :
      (empty : Filled E size array).elements.length +
            (text ++ [ending]).length ≤ size array ↔
        text.length < size array := by
    rw [elements_empty, List.length_nil, List.length_append,
      List.length_singleton]
    omega
  rw [inside_write_bind_iff]
  exact
    ⟨fun ⟨room, inside⟩ => ⟨fits.mp room, inside⟩,
      fun ⟨short, inside⟩ => ⟨fits.mpr short, inside⟩⟩

end Filled

end DnsFirewall.FixedArrays
