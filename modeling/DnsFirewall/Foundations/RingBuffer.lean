import Mathlib.Data.List.Basic
import Mathlib.Logic.Function.Basic

/-!
# Ring buffers

A ring keeps its items in `size` slots between a read index and a write index,
with their count, so that the full and the empty ring may have equal indices.
Pushing and popping then are a queue on the items from the read index on.
-/

namespace DnsFirewall.RingBuffer

structure Ring (α : Type) (size : Nat) where
  slots : Nat → α
  read : Nat
  write : Nat
  count : Int

namespace Ring

variable {α : Type} {size : Nat}

/-- Fill the slot at the write index, which still holds what it last held. -/
def push (ring : Ring α size) (fill : α → α) : Ring α size where
  slots :=
    Function.update ring.slots ring.write (fill (ring.slots ring.write))
  read := ring.read
  write := (ring.write + 1) % size
  count := ring.count + 1

def front (ring : Ring α size) : α :=
  ring.slots ring.read

def pop (ring : Ring α size) : Ring α size where
  slots := ring.slots
  read := (ring.read + 1) % size
  write := ring.write
  count := ring.count - 1

@[simp]
theorem count_push (ring : Ring α size) (fill : α → α) :
    (ring.push fill).count = ring.count + 1 :=
  rfl

@[simp]
theorem count_pop (ring : Ring α size) : ring.pop.count = ring.count - 1 :=
  rfl

/-- The items from the read index on, the oldest first. -/
def contents (ring : Ring α size) : List α :=
  (List.range ring.count.toNat).map fun place =>
    ring.slots ((ring.read + place) % size)

structure Sound (ring : Ring α size) : Prop where
  read_lt : ring.read < size
  count_nonneg : 0 ≤ ring.count
  count_le : ring.count ≤ size
  write_eq : (ring.write : Int) = (ring.read + ring.count) % size

theorem length_contents {ring : Ring α size} (sound : ring.Sound) :
    (ring.contents.length : Int) = ring.count := by
  have nonneg := sound.count_nonneg
  rw [contents, List.length_map, List.length_range]
  omega

/-- Different waiting places have different slots, however the ring wraps. -/
theorem slot_ne
    {read first second : Nat} (ordered : first < second)
    (near : second < first + size) :
    (read + first) % size ≠ (read + second) % size := by
  intro same
  have remainder := Nat.sub_mod_eq_zero_of_mod_eq same.symm
  have gap : read + second - (read + first) = second - first := by omega
  rw [gap, Nat.mod_eq_of_lt (by omega)] at remainder
  omega

theorem write_slot {ring : Ring α size} (sound : ring.Sound) :
    ring.write = (ring.read + ring.count.toNat) % size := by
  have nonneg := sound.count_nonneg
  have write := sound.write_eq
  have whole : ((ring.count.toNat : Nat) : Int) = ring.count := by omega
  have cast :
      (ring.write : Int) =
        ((ring.read + ring.count.toNat) % size : Nat) := by
    rw [write]
    push_cast
    rw [whole]
  exact Int.ofNat.inj cast

theorem sound_push
    {ring : Ring α size} (sound : ring.Sound) (room : ring.count < size)
    (fill : α → α) :
    (ring.push fill).Sound where
  read_lt := sound.read_lt
  count_nonneg := Int.add_nonneg sound.count_nonneg (by decide)
  count_le := room
  write_eq := by
    have write := sound.write_eq
    rw [push]
    push_cast
    rw [write, Int.emod_add_emod]
    congr 1
    exact Int.add_assoc _ _ _

/-- Pushing appends the filled slot to the items. -/
theorem contents_push
    {ring : Ring α size} (sound : ring.Sound) (room : ring.count < size)
    (fill : α → α) :
    (ring.push fill).contents =
      ring.contents ++ [fill (ring.slots ring.write)] := by
  have nonneg := sound.count_nonneg
  have next : (ring.push fill).count.toNat = ring.count.toNat + 1 := by
    rw [count_push]
    omega
  rw [contents, next, List.range_succ, List.map_append]
  congr 1
  · apply List.map_congr_left
    intro place isPlace
    have inside := List.mem_range.mp isPlace
    have other : (ring.read + place) % size ≠ ring.write := by
      rw [write_slot sound]
      exact slot_ne inside (by omega)
    exact Function.update_of_ne other _ _
  · have last :
        (ring.push fill).slots
            ((ring.read + ring.count.toNat) % size) =
          fill (ring.slots ring.write) := by
      rw [← write_slot sound]
      exact Function.update_self _ _ _
    exact congrArg (fun item => [item]) last

theorem sound_pop
    {ring : Ring α size} (sound : ring.Sound) (waiting : 0 < ring.count) :
    ring.pop.Sound where
  read_lt := Nat.mod_lt _ (Nat.zero_lt_of_lt sound.read_lt)
  count_nonneg := by
    rw [count_pop]
    omega
  count_le := by
    have bound := sound.count_le
    rw [count_pop]
    omega
  write_eq := by
    have write := sound.write_eq
    rw [pop]
    push_cast
    rw [write, Int.emod_add_emod]
    congr 1
    omega

/-- Popping takes the oldest item. -/
theorem contents_pop
    {ring : Ring α size} (sound : ring.Sound) (waiting : 0 < ring.count) :
    ring.contents = ring.front :: ring.pop.contents := by
  have next : ring.count.toNat = ring.pop.count.toNat + 1 := by
    rw [count_pop]
    omega
  rw [contents, next, List.range_succ_eq_map, List.map_cons, List.map_map]
  congr 1
  · have inside : (ring.read + 0) % size = ring.read :=
      Nat.mod_eq_of_lt sound.read_lt
    rw [inside]
    rfl
  · apply List.map_congr_left
    intro place isPlace
    have same :
        (ring.read + (place + 1)) % size =
          ((ring.read + 1) % size + place) % size := by
      rw [Nat.mod_add_mod]
      congr 1
      omega
    exact congrArg ring.slots same

end Ring

end DnsFirewall.RingBuffer
