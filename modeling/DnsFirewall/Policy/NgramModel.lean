import DnsFirewall.Foundations.BigEndian
import DnsFirewall.Foundations.Filling
import DnsFirewall.Policy.Score
import Mathlib.Data.Nat.Log

/-!
# The 4-gram model file

`load_ngram_model` reads a count and as many records, and fills a table whose
capacity it doubles until it is at least twice the count.  Both words have 32
bits, so for a large count the doubling never ends, or the table is too small
for the records of the file.
-/

namespace DnsFirewall

open BigEndian CString LinearProbing Occupancy

variable {F : Type}

/-- `hash_table` and `hash_capacity` as the loader leaves them.  A slot whose
gram starts with NUL is unused. -/
structure NgramSlots (F : Type) where
  capacity : Nat
  entries : Fin capacity → Option (Bytes × F)

/-- The slots of a table whose searches end. -/
def NgramTable.slots (table : NgramTable F) : NgramSlots F :=
  ⟨table.capacity, table.entries⟩

/-- The loop that doubles `hash_capacity`, with fuel for its tests. -/
def doubleCapacity (bound : UInt32) : Nat → UInt32 → Option UInt32
  | 0, _ => none
  | fuel + 1, capacity =>
      if capacity < bound then doubleCapacity bound fuel (capacity <<< 1)
      else some capacity

/-- `hash_capacity` after the loop and the test against `HASH_SIZE`. -/
def hashCapacity (doubled : UInt32) : UInt32 :=
  if doubled < 65536 then 65536 else doubled

theorem hashCapacity_toNat (doubled : UInt32) :
    (hashCapacity doubled).toNat = max 65536 doubled.toNat := by
  have size : (65536 : UInt32).toNat = 65536 := rfl
  rw [hashCapacity]
  split
  case isTrue small =>
    rw [UInt32.lt_iff_toNat_lt] at small
    omega
  case isFalse large =>
    rw [UInt32.lt_iff_toNat_lt] at large
    omega

instance (doubled : UInt32) : NeZero (hashCapacity doubled).toNat :=
  ⟨by
    rw [hashCapacity_toNat]
    omega⟩

/-- The `fread` of the count, in the byte order of the file. -/
def readCount (file : Bytes) : Option (UInt32 × Bytes) :=
  match file with
  | first :: second :: third :: fourth :: rest =>
      some (word32 fourth third second first, rest)
  | _ => none

/-- The two `fread`s of a record; `ofBytes` is the number that four bytes
stand for. -/
def readRecord (ofBytes : Bytes → F) (file : Bytes) :
    Option ((Bytes × F) × Bytes) :=
  if file.length < 4 then
    none
  else
    let rest := file.drop 4
    if rest.length < 4 then
      none
    else
      some ((file.take 4, ofBytes (rest.take 4)), rest.drop 4)

/-- The slot where a gram is looked for first. -/
def ngramHome (capacity : Nat) [NeZero capacity] (gram : Bytes) :
    Fin capacity :=
  Fin.ofNat capacity ((hash4gram gram).toNat &&& (capacity - 1))

/-- In a table whose capacity is a power of two, the next slot is the one that
`(h + 1) & (hash_capacity - 1)` selects. -/
theorem slotAt_succ_eq_mask
    {capacity power : Nat} [NeZero capacity] (isPower : capacity = 2 ^ power)
    (home : Fin capacity) (pass : Nat) :
    (slotAt home (pass + 1)).val =
      ((slotAt home pass).val + 1) &&& (capacity - 1) := by
  have mask : ∀ value, value &&& (capacity - 1) = value % capacity := by
    intro value
    rw [isPower, Nat.and_two_pow_sub_one_eq_mod]
  rw [slotAt_val, slotAt_val, mask, Nat.mod_add_mod, Nat.add_assoc]

/-- What a slot holds after a record is copied into it. -/
def storedRecord (record : Bytes × F) : Option (Bytes × F) :=
  if record.1.head? = some 0 then none else some record

section Loops

variable {n : Nat} [NeZero n]

/-- The inner loop of the loader and the copy behind it. -/
def insertRecord (fuel : Nat) (entries : Fin n → Option (Bytes × F))
    (record : Bytes × F) : Option (Fin n → Option (Bytes × F)) :=
  let home := ngramHome n record.1
  match roomFor entries home fuel with
  | none => none
  | some pass =>
      some (Function.update entries (slotAt home pass)
        (storedRecord record))

/-- The loop over the records, `count` of them at most. -/
def loadRecords (ofBytes : Bytes → F) (fuel : Nat) :
    Nat → Bytes → (Fin n → Option (Bytes × F)) →
      Option (Fin n → Option (Bytes × F))
  | 0, _, entries => some entries
  | count + 1, file, entries =>
      match readRecord ofBytes file with
      | none => some entries
      | some (record, rest) =>
          match insertRecord fuel entries record with
          | none => none
          | some entries => loadRecords ofBytes fuel count rest entries

end Loops

/-- `load_ngram_model`, with the content of the file if it can be opened.
There is no result when the fuel does not suffice, and the result is none when
no table is set up. -/
def loadNgramModel (ofBytes : Bytes → F) (fuel : Nat)
    (file : Option Bytes) : Option (Option (NgramSlots F)) :=
  match file with
  | none => some none
  | some content =>
      match readCount content with
      | none => some none
      | some (count, rest) =>
          match doubleCapacity (count * 2) fuel 1 with
          | none => none
          | some doubled =>
              let entries : Fin (hashCapacity doubled).toNat →
                  Option (Bytes × F) := fun _ => none
              match loadRecords ofBytes fuel count.toNat rest entries with
              | none => none
              | some entries =>
                  some (some ⟨(hashCapacity doubled).toNat, entries⟩)

/-! ## The capacity -/

theorem shiftLeft_one_toNat (capacity : UInt32) :
    (capacity <<< 1).toNat = capacity.toNat * 2 % 4294967296 := by
  rw [UInt32.toNat_shiftLeft]
  simp [Nat.shiftLeft_eq]

/-- Up to 2^31 the loop ends at the least power of two that is not below the
bound. -/
theorem doubleCapacity_ends
    {bound doubled : UInt32} (small : bound.toNat ≤ 2147483648)
    (least : doubled.toNat = 2 ^ Nat.clog 2 bound.toNat) {fuel power : Nat}
    {capacity : UInt32} (isPower : capacity.toNat = 2 ^ power)
    (below : power ≤ Nat.clog 2 bound.toNat)
    (enough : Nat.clog 2 bound.toNat < power + fuel) :
    doubleCapacity bound fuel capacity = some doubled := by
  induction fuel generalizing power capacity with
  | zero => omega
  | succ fuel inductionHypothesis =>
      rw [doubleCapacity]
      by_cases more : capacity < bound
      · rw [if_pos more]
        rw [UInt32.lt_iff_toNat_lt] at more
        have powerBelow : power < Nat.clog 2 bound.toNat := by
          rw [Nat.lt_clog_iff_pow_lt Nat.one_lt_two, ← isPower]
          exact more
        have next : (capacity <<< 1).toNat = 2 ^ (power + 1) := by
          rw [shiftLeft_one_toNat, isPower, ← Nat.pow_succ]
          apply Nat.mod_eq_of_lt
          rw [Nat.pow_succ]
          omega
        exact inductionHypothesis next powerBelow (by omega)
      · rw [if_neg more]
        rw [UInt32.lt_iff_toNat_lt, isPower] at more
        have reached : power = Nat.clog 2 bound.toNat := by
          apply Nat.le_antisymm below
          rw [Nat.clog_le_iff_le_pow Nat.one_lt_two]
          exact Nat.le_of_not_lt more
        apply congrArg some
        apply UInt32.toNat_inj.mp
        rw [isPower, least, reached]

/-- Above 2^31 the capacity wraps to zero, and the loop never ends. -/
theorem doubleCapacity_never
    {bound : UInt32} (large : 2147483648 < bound.toNat) (fuel : Nat)
    {capacity : UInt32}
    (reached : capacity.toNat = 0 ∨
      ∃ power, power ≤ 31 ∧ capacity.toNat = 2 ^ power) :
    doubleCapacity bound fuel capacity = none := by
  induction fuel generalizing capacity with
  | zero => rfl
  | succ fuel inductionHypothesis =>
      have more : capacity < bound := by
        rw [UInt32.lt_iff_toNat_lt]
        rcases reached with isZero | isPower
        · omega
        · obtain ⟨power, inWord, value⟩ := isPower
          have least : 2 ^ power ≤ 2 ^ 31 :=
            Nat.pow_le_pow_right Nat.two_pos inWord
          omega
      rw [doubleCapacity, if_pos more]
      apply inductionHypothesis
      rw [shiftLeft_one_toNat]
      rcases reached with isZero | isPower
      · left
        rw [isZero]
      · obtain ⟨power, inWord, value⟩ := isPower
        rcases Nat.lt_or_eq_of_le inWord with inner | last
        · right
          refine ⟨power + 1, inner, ?_⟩
          rw [value, ← Nat.pow_succ]
          apply Nat.mod_eq_of_lt
          have least : 2 ^ (power + 1) ≤ 2 ^ 31 :=
            Nat.pow_le_pow_right Nat.two_pos inner
          omega
        · left
          have around : 2 ^ 31 * 2 % 4294967296 = 0 := by decide
          rw [value, last, around]

/-! ## The records -/

/-- The records that the loop reads. -/
def recordsRead (ofBytes : Bytes → F) : Nat → Bytes → List (Bytes × F)
  | 0, _ => []
  | count + 1, file =>
      match readRecord ofBytes file with
      | none => []
      | some (record, rest) => record :: recordsRead ofBytes count rest

/-- The record takes up a slot. -/
def takesSlot (record : Bytes × F) : Bool :=
  (storedRecord record).isSome

section Loops

variable {n : Nat} [NeZero n] {entries next : Fin n → Option (Bytes × F)}

theorem loadRecords_eq_foldlM
    (ofBytes : Bytes → F) (fuel count : Nat) (file : Bytes)
    (entries : Fin n → Option (Bytes × F)) :
    loadRecords ofBytes fuel count file entries =
      (recordsRead ofBytes count file).foldlM (insertRecord fuel)
        entries := by
  induction count generalizing file entries with
  | zero => rfl
  | succ count inductionHypothesis =>
      rw [loadRecords, recordsRead]
      cases readRecord ofBytes file with
      | none => rfl
      | some pair =>
          obtain ⟨record, rest⟩ := pair
          simp only [List.foldlM_cons]
          cases insertRecord fuel entries record with
          | none => rfl
          | some next => exact inductionHypothesis rest next

/-- An insertion fills an empty slot, or leaves the table as it was when the
gram starts with NUL. -/
theorem insertRecord_cases
    {fuel : Nat} {record : Bytes × F}
    (inserted : insertRecord fuel entries record = some next) :
    ∃ pass,
      roomFor entries (ngramHome n record.1) fuel = some pass ∧
        ((takesSlot record = true ∧
            next =
              Function.update entries
                (slotAt (ngramHome n record.1) pass) (some record)) ∨
          takesSlot record = false ∧ next = entries) := by
  rw [insertRecord] at inserted
  cases room : roomFor entries (ngramHome n record.1) fuel with
  | none =>
      rw [room] at inserted
      cases inserted
  | some pass =>
      rw [room] at inserted
      have result := Option.some.inj inserted
      refine ⟨pass, rfl, ?_⟩
      by_cases nul : record.1.head? = some 0
      · right
        have stored : storedRecord record = none := if_pos nul
        have empty := (roomFor_eq_some_iff.mp room).2.1
        rw [stored, ← empty, Function.update_eq_self] at result
        refine ⟨?_, result.symm⟩
        rw [takesSlot, stored]
        rfl
      · left
        have stored : storedRecord record = some record := if_neg nul
        rw [stored] at result
        refine ⟨?_, result.symm⟩
        rw [takesSlot, stored]
        rfl

theorem exists_insertRecord
    (unused : ∃ slot, entries slot = none) {fuel : Nat}
    (enough : n ≤ fuel) (record : Bytes × F) :
    ∃ next, insertRecord fuel entries record = some next := by
  obtain ⟨pass, room⟩ :=
    exists_roomFor unused (ngramHome n record.1) enough
  rw [insertRecord, room]
  exact ⟨_, rfl⟩

theorem card_insertRecord
    {fuel : Nat} {record : Bytes × F}
    (inserted : insertRecord fuel entries record = some next) :
    (occupied next).card =
      (occupied entries).card + if takesSlot record then 1 else 0 := by
  obtain ⟨pass, room, filled | kept⟩ := insertRecord_cases inserted
  · obtain ⟨takes, isUpdate⟩ := filled
    have empty := (roomFor_eq_some_iff.mp room).2.1
    rw [isUpdate, takes, card_occupied_fill record empty]
    simp
  · obtain ⟨takesNone, same⟩ := kept
    rw [same, takesNone]
    simp

/-- The slots that are used are those of the records that take one. -/
theorem card_insertRecords
    {fuel : Nat} {records : List (Bytes × F)}
    (inserted :
      records.foldlM (insertRecord fuel) entries = some next) :
    (occupied next).card =
      (occupied entries).card + records.countP takesSlot := by
  induction records generalizing entries with
  | nil =>
      cases inserted
      rfl
  | cons record records inductionHypothesis =>
      rw [List.foldlM_cons] at inserted
      obtain ⟨middle, first, later⟩ := Option.bind_eq_some_iff.mp inserted
      rw [inductionHypothesis later, card_insertRecord first,
        List.countP_cons, Nat.add_assoc,
        Nat.add_comm (records.countP takesSlot)]

/-- As long as the records leave a slot unused, every one of them finds
room. -/
theorem exists_insertRecords
    {fuel : Nat} (enough : n ≤ fuel) {records : List (Bytes × F)}
    (fit : (occupied entries).card + records.countP takesSlot < n) :
    ∃ next, records.foldlM (insertRecord fuel) entries = some next := by
  induction records generalizing entries with
  | nil => exact ⟨entries, rfl⟩
  | cons record records inductionHypothesis =>
      rw [List.countP_cons] at fit
      have unused : ∃ slot, entries slot = none :=
        card_occupied_lt_iff.mp (by omega)
      obtain ⟨middle, first⟩ := exists_insertRecord unused enough record
      have used := card_insertRecord first
      obtain ⟨next, later⟩ :=
        @inductionHypothesis middle (by omega)
      refine ⟨next, ?_⟩
      rw [List.foldlM_cons, first]
      exact later

theorem insertRecord_mono
    {fuel more : Nat} {record : Bytes × F} (enough : fuel ≤ more)
    (inserted : insertRecord fuel entries record = some next) :
    insertRecord more entries record = some next := by
  obtain ⟨pass, room, _⟩ := insertRecord_cases inserted
  rw [insertRecord, room] at inserted
  rw [insertRecord, roomFor_mono room enough]
  exact inserted

theorem insertRecords_mono
    {fuel more : Nat} (enough : fuel ≤ more)
    {records : List (Bytes × F)}
    (inserted :
      records.foldlM (insertRecord fuel) entries = some next) :
    records.foldlM (insertRecord more) entries = some next := by
  induction records generalizing entries with
  | nil => exact inserted
  | cons record records inductionHypothesis =>
      rw [List.foldlM_cons] at inserted ⊢
      obtain ⟨middle, first, later⟩ := Option.bind_eq_some_iff.mp inserted
      exact
        Option.bind_eq_some_iff.mpr
          ⟨middle, insertRecord_mono enough first,
            inductionHypothesis later⟩

/-- Records with new grams are all found again. -/
theorem holds_insertRecords
    {fuel : Nat} {done records : List (Bytes × F)}
    (holds : Holds Prod.fst (ngramHome n) entries done)
    (distinct : ((done ++ records).map Prod.fst).Nodup)
    (takes : ∀ record, record ∈ records → takesSlot record = true)
    (inserted :
      records.foldlM (insertRecord fuel) entries = some next) :
    Holds Prod.fst (ngramHome n) next (done ++ records) := by
  induction records generalizing entries done with
  | nil =>
      cases inserted
      rw [List.append_nil]
      exact holds
  | cons record records inductionHypothesis =>
      rw [List.foldlM_cons] at inserted
      obtain ⟨middle, first, later⟩ := Option.bind_eq_some_iff.mp inserted
      have taken := takes record List.mem_cons_self
      obtain ⟨pass, room, filled | kept⟩ := insertRecord_cases first
      · obtain ⟨_, isUpdate⟩ := filled
        have fresh : ∀ other, other ∈ done → other.1 ≠ record.1 := by
          intro other member
          rw [List.map_append, List.map_cons] at distinct
          have apart := (List.nodup_append.mp distinct).2.2
          exact
            apart other.1 (List.mem_map_of_mem member) record.1
              List.mem_cons_self
        have shape : done ++ record :: records =
            (done ++ [record]) ++ records := by
          rw [List.append_assoc, List.singleton_append]
        rw [shape] at distinct ⊢
        apply inductionHypothesis _ distinct _ later
        · rw [isUpdate]
          exact holds.fill fresh room
        · exact fun other member =>
            takes other (List.mem_cons_of_mem record member)
      · rw [kept.1] at taken
        cases taken

end Loops

/-! ## The whole file -/

/-- With enough fuel the file is loaded into these slots. -/
def LoadsInto (ofBytes : Bytes → F) (file : Bytes)
    (slots : NgramSlots F) : Prop :=
  ∃ enough, ∀ fuel, enough ≤ fuel →
    loadNgramModel ofBytes fuel (some file) = some (some slots)

/-- The loader ends with a table whose capacity is a power of two and which
has an empty slot. -/
def LoadsProbeable (ofBytes : Bytes → F) (file : Bytes) : Prop :=
  ∃ slots, LoadsInto ofBytes file slots ∧
    (∃ power, slots.capacity = 2 ^ power) ∧
      ∃ slot, slots.entries slot = none

/-- The capacity for twice a count. -/
def capacityFor (bound : UInt32) : Nat :=
  max 65536 (2 ^ Nat.clog 2 bound.toNat)

theorem exists_doubleCapacity
    {bound : UInt32} (small : bound.toNat ≤ 2147483648) :
    ∃ doubled,
      (hashCapacity doubled).toNat = capacityFor bound ∧
        ∀ fuel, Nat.clog 2 bound.toNat < fuel →
          doubleCapacity bound fuel 1 = some doubled := by
  have power : Nat.clog 2 bound.toNat ≤ 31 :=
    Nat.clog_le_of_le_pow small
  have inWord : 2 ^ Nat.clog 2 bound.toNat ≤ 2 ^ 31 :=
    Nat.pow_le_pow_right Nat.two_pos power
  have least :
      (UInt32.ofNat (2 ^ Nat.clog 2 bound.toNat)).toNat =
        2 ^ Nat.clog 2 bound.toNat := by
    rw [UInt32.toNat_ofNat']
    apply Nat.mod_eq_of_lt
    omega
  refine ⟨UInt32.ofNat (2 ^ Nat.clog 2 bound.toNat), ?_, ?_⟩
  · rw [hashCapacity_toNat, least, capacityFor]
  · intro fuel enough
    exact
      doubleCapacity_ends small least rfl (Nat.zero_le _)
        (by rw [Nat.zero_add]; exact enough)

theorem capacityFor_eq_two_pow (bound : UInt32) :
    ∃ power, capacityFor bound = 2 ^ power := by
  rcases Nat.le_total 16 (Nat.clog 2 bound.toNat) with high | low
  · refine ⟨Nat.clog 2 bound.toNat, Nat.max_eq_right ?_⟩
    exact Nat.pow_le_pow_right Nat.two_pos high
  · refine ⟨16, Nat.max_eq_left ?_⟩
    exact Nat.pow_le_pow_right Nat.two_pos low

theorem loadNgramModel_of_doubled
    {ofBytes : Bytes → F} {fuel : Nat} {file rest : Bytes}
    {count doubled : UInt32} (counted : readCount file = some (count, rest))
    (ends : doubleCapacity (count * 2) fuel 1 = some doubled) :
    loadNgramModel ofBytes fuel (some file) =
      ((recordsRead ofBytes count.toNat rest).foldlM
        (insertRecord fuel)
        (fun _ : Fin (hashCapacity doubled).toNat => none)).map
          fun entries => some ⟨(hashCapacity doubled).toNat, entries⟩ := by
  rw [← loadRecords_eq_foldlM]
  simp only [loadNgramModel, counted, ends]
  cases loadRecords ofBytes fuel count.toNat rest
    (fun _ : Fin (hashCapacity doubled).toNat => none) with
  | none => rfl
  | some entries => rfl

/-- Records that leave a slot unused are loaded. -/
theorem loadsInto_of_fit
    {ofBytes : Bytes → F} {file rest : Bytes} {count : UInt32}
    (counted : readCount file = some (count, rest))
    (small : (count * 2).toNat ≤ 2147483648)
    (fit : (recordsRead ofBytes count.toNat rest).countP takesSlot <
      capacityFor (count * 2)) :
    ∃ (doubled : UInt32)
      (entries : Fin (hashCapacity doubled).toNat → Option (Bytes × F))
      (fuel : Nat),
      (hashCapacity doubled).toNat = capacityFor (count * 2) ∧
        (recordsRead ofBytes count.toNat rest).foldlM (insertRecord fuel)
            (fun _ => none) = some entries ∧
          LoadsInto ofBytes file
            ⟨(hashCapacity doubled).toNat, entries⟩ := by
  obtain ⟨doubled, capacity, ends⟩ := exists_doubleCapacity small
  rw [← capacity] at fit
  obtain ⟨entries, inserted⟩ :=
    @exists_insertRecords F (hashCapacity doubled).toNat _ (fun _ => none)
      (hashCapacity doubled).toNat (Nat.le_refl _) _
      (by rw [occupied_none, Finset.card_empty, Nat.zero_add]; exact fit)
  refine
    ⟨doubled, entries, (hashCapacity doubled).toNat, capacity, inserted,
      max (Nat.clog 2 (count * 2).toNat + 1) (hashCapacity doubled).toNat,
      ?_⟩
  intro fuel enough
  obtain ⟨doubling, inserting⟩ := Nat.max_le.mp enough
  rw [loadNgramModel_of_doubled counted (ends fuel doubling),
    insertRecords_mono inserting inserted]
  rfl

/-- The loader ends with a table that can be probed exactly when the file has
its count, twice the count is, as a word, at most 2^31, and the records that
are read leave a slot of the table unused. -/
theorem loadNgramModel_probeable_iff
    (ofBytes : Bytes → F) (file : Bytes) :
    LoadsProbeable ofBytes file ↔
      ∃ count rest,
        readCount file = some (count, rest) ∧
          (count * 2).toNat ≤ 2147483648 ∧
            (recordsRead ofBytes count.toNat rest).countP takesSlot <
              capacityFor (count * 2) := by
  constructor
  · intro loads
    obtain ⟨slots, ⟨enough, ends⟩, _, unused⟩ := loads
    cases counted : readCount file with
    | none =>
        have nothing := ends enough (Nat.le_refl enough)
        simp only [loadNgramModel, counted] at nothing
        cases nothing
    | some pair =>
        obtain ⟨count, rest⟩ := pair
        have small : (count * 2).toNat ≤ 2147483648 := by
          by_contra large
          have never :=
            @doubleCapacity_never (count * 2) (Nat.lt_of_not_le large)
              enough 1 (Or.inr ⟨0, Nat.zero_le 31, rfl⟩)
          have loaded := ends enough (Nat.le_refl enough)
          simp only [loadNgramModel, counted, never] at loaded
          cases loaded
        obtain ⟨doubled, capacity, doubles⟩ := exists_doubleCapacity small
        have loaded :=
          ends (max enough (Nat.clog 2 (count * 2).toNat + 1))
            (Nat.le_max_left _ _)
        rw [loadNgramModel_of_doubled counted
          (doubles _ (Nat.le_max_right _ _))] at loaded
        obtain ⟨entries, inserted, result⟩ :=
          Option.map_eq_some_iff.mp loaded
        cases result
        have used := card_insertRecords inserted
        rw [occupied_none, Finset.card_empty, Nat.zero_add] at used
        refine ⟨count, rest, rfl, small, ?_⟩
        rw [← used, ← capacity]
        exact card_occupied_lt_iff.mpr unused
  · intro given
    obtain ⟨count, rest, counted, small, fit⟩ := given
    obtain ⟨doubled, entries, fuel, capacity, inserted, loads⟩ :=
      loadsInto_of_fit counted small fit
    have used := card_insertRecords inserted
    rw [occupied_none, Finset.card_empty, Nat.zero_add] at used
    obtain ⟨power, isPower⟩ := capacityFor_eq_two_pow (count * 2)
    refine
      ⟨⟨_, entries⟩, loads, ⟨power, capacity.trans isPower⟩,
        card_occupied_lt_iff.mp ?_⟩
    rw [used]
    exact Nat.lt_of_lt_of_eq fit capacity.symm

/-- A count of 2^30 + 1 and no records: the capacity is doubled forever. -/
theorem not_loadsProbeable_largeCount :
    ¬ ∀ (ofBytes : Bytes → Nat) (file : Bytes),
      LoadsProbeable ofBytes file := by
  intro always
  obtain ⟨slots, ⟨enough, ends⟩, _⟩ := always (fun _ => 0) [1, 0, 0, 64]
  have large : 2147483648 < ((1073741825 : UInt32) * 2).toNat := by decide
  have never :=
    @doubleCapacity_never _ large enough 1
      (Or.inr ⟨0, Nat.zero_le 31, rfl⟩)
  have counted :
      readCount [1, 0, 0, 64] = some (1073741825, []) := by decide
  have loaded := ends enough (Nat.le_refl enough)
  simp only [loadNgramModel, counted, never] at loaded
  cases loaded

/-! ## Faithful tables -/

/-- A record as the file has it. -/
structure GramRecord where
  gram : Bytes
  logprob : Bytes
  gramSize : gram.length = 4
  logprobSize : logprob.length = 4

def GramRecord.bytes (record : GramRecord) : Bytes :=
  record.gram ++ record.logprob

/-- The record as it is read. -/
def GramRecord.entry (ofBytes : Bytes → F) (record : GramRecord) :
    Bytes × F :=
  (record.gram, ofBytes record.logprob)

/-- A model file: the number of the records, low octet first, the records, and
what stands behind them. -/
def modelFile (records : List GramRecord) (trailing : Bytes) : Bytes :=
  (bytes32 records.length.toUInt32).reverse ++
    (records.flatMap GramRecord.bytes ++ trailing)

theorem readCount_modelFile (records : List GramRecord)
    (trailing : Bytes) :
    readCount (modelFile records trailing) =
      some (records.length.toUInt32,
        records.flatMap GramRecord.bytes ++ trailing) := by
  have word := word32_bytes32 records.length.toUInt32
  simp only [modelFile, bytes32, List.reverse_cons, List.reverse_nil,
    List.nil_append, List.cons_append, readCount, word]

theorem readRecord_bytes
    (ofBytes : Bytes → F) (record : GramRecord) (rest : Bytes) :
    readRecord ofBytes (record.bytes ++ rest) =
      some (record.entry ofBytes, rest) := by
  obtain ⟨gram, logprob, gramSize, logprobSize⟩ := record
  have behind : (gram ++ (logprob ++ rest)).drop 4 = logprob ++ rest :=
    List.drop_left' gramSize
  have front : (gram ++ (logprob ++ rest)).take 4 = gram :=
    List.take_left' gramSize
  have value : (logprob ++ rest).take 4 = logprob :=
    List.take_left' logprobSize
  have left : (logprob ++ rest).drop 4 = rest :=
    List.drop_left' logprobSize
  have whole : ¬ (gram ++ (logprob ++ rest)).length < 4 := by
    rw [List.length_append]
    omega
  have half : ¬ (logprob ++ rest).length < 4 := by
    rw [List.length_append]
    omega
  rw [GramRecord.bytes, List.append_assoc, readRecord, if_neg whole]
  simp only [behind, front, value, left, if_neg half, GramRecord.entry]

theorem recordsRead_flatMap
    (ofBytes : Bytes → F) (records : List GramRecord) (trailing : Bytes) :
    recordsRead ofBytes records.length
        (records.flatMap GramRecord.bytes ++ trailing) =
      records.map (GramRecord.entry ofBytes) := by
  induction records with
  | nil => rfl
  | cons record records inductionHypothesis =>
      rw [List.length_cons, recordsRead, List.flatMap_cons,
        List.append_assoc, readRecord_bytes]
      simp only [inductionHypothesis, List.map_cons]

/-- The search for a gram ends, at its record or at an empty slot. -/
theorem ngramLogprob_of_holds
    (arith : Arithmetic F) {table : NgramTable F}
    {records : List (Bytes × F)}
    (holds :
      Holds Prod.fst (ngramHome table.capacity) table.entries records)
    (gram : Bytes) :
    (∃ pass,
        probe Prod.fst table.entries (ngramHome table.capacity gram) gram =
          some pass) ∧
      (∀ record, record ∈ records → record.1 = gram →
        ngramLogprob arith table gram = record.2) ∧
      ((∀ record, record ∈ records → record.1 ≠ gram) →
        ngramLogprob arith table gram = arith.decimal (-20) 0) := by
  refine ⟨exists_probe_ngram table _ gram, ?_, ?_⟩
  · intro record member isGram
    subst isGram
    obtain ⟨pass, found, occupied⟩ := holds.probe_present member
    rw [ngramHome] at found occupied
    simp only [ngramLogprob, found, occupied]
  · intro absent
    obtain ⟨pass, found, empty⟩ := holds.probe_absent table.unused absent
    rw [ngramHome] at found empty
    simp only [ngramLogprob, found, empty]

theorem takesSlot_entry
    (ofBytes : Bytes → F) {record : GramRecord}
    (noNul : record.gram.head? ≠ some 0) :
    takesSlot (record.entry ofBytes) = true := by
  have stored :
      storedRecord (record.entry ofBytes) = some (record.entry ofBytes) :=
    if_neg noNul
  rw [takesSlot, stored]
  rfl

/-- Up to 2^30 records double without a wrap, and leave half of the slots. -/
theorem capacityFor_count
    {count : Nat} (few : count ≤ 1073741824) :
    count.toUInt32.toNat = count ∧
      (count.toUInt32 * 2).toNat = count * 2 ∧
        count < capacityFor (count.toUInt32 * 2) := by
  have same : count.toUInt32.toNat = count := Nat.mod_eq_of_lt (by omega)
  have two : (2 : UInt32).toNat = 2 := rfl
  have doubled : (count.toUInt32 * 2).toNat = count * 2 := by
    rw [UInt32.toNat_mul, same, two]
    exact Nat.mod_eq_of_lt (by omega)
  refine ⟨same, doubled, ?_⟩
  have large := Nat.le_pow_clog Nat.one_lt_two (count * 2)
  rw [capacityFor, doubled]
  omega

/-- A file of up to 2^30 records with different grams is loaded into a table
that yields for every gram the log-probability of its record, or the default
when it has none, and every search in it ends. -/
theorem loadNgramModel_faithful
    (arith : Arithmetic F) (ofBytes : Bytes → F)
    (records : List GramRecord) (trailing : Bytes)
    (few : records.length ≤ 1073741824)
    (distinct : (records.map GramRecord.gram).Nodup)
    (noNul : ∀ record, record ∈ records → record.gram.head? ≠ some 0) :
    ∃ table : NgramTable F,
      LoadsInto ofBytes (modelFile records trailing) table.slots ∧
        ∀ gram : Bytes,
          (∃ pass,
              probe Prod.fst table.entries
                (ngramHome table.capacity gram) gram = some pass) ∧
            (∀ record, record ∈ records → record.gram = gram →
              ngramLogprob arith table gram = ofBytes record.logprob) ∧
            ((∀ record, record ∈ records → record.gram ≠ gram) →
              ngramLogprob arith table gram = arith.decimal (-20) 0) := by
  obtain ⟨count, bound, room⟩ := capacityFor_count few
  have counted := readCount_modelFile records trailing
  have read := recordsRead_flatMap ofBytes records trailing
  have takes :
      ∀ entry, entry ∈ records.map (GramRecord.entry ofBytes) →
        takesSlot entry = true := by
    intro entry member
    obtain ⟨record, isRecord, rfl⟩ := List.mem_map.mp member
    exact takesSlot_entry ofBytes (noNul record isRecord)
  have all :
      (records.map (GramRecord.entry ofBytes)).countP takesSlot =
        records.length := by
    rw [List.countP_eq_length.mpr takes, List.length_map]
  obtain ⟨doubled, entries, fuel, capacity, inserted, loads⟩ :=
    @loadsInto_of_fit F ofBytes _ _ _ counted (by omega)
      (by rw [count, read, all]; exact room)
  rw [count, read] at inserted
  have used := card_insertRecords inserted
  rw [occupied_none, Finset.card_empty, Nat.zero_add, all] at used
  have unused : ∃ slot, entries slot = none :=
    card_occupied_lt_iff.mp (by omega)
  have grams :
      (records.map (GramRecord.entry ofBytes)).map Prod.fst =
        records.map GramRecord.gram := by
    rw [List.map_map]
    rfl
  have holds :=
    holds_insertRecords holds_nil
      (by rw [List.nil_append, grams]; exact distinct) takes inserted
  rw [List.nil_append] at holds
  refine ⟨⟨_, entries, unused⟩, loads, ?_⟩
  intro gram
  obtain ⟨ends, present, absent⟩ :=
    @ngramLogprob_of_holds F arith ⟨_, entries, unused⟩ _ holds gram
  refine ⟨ends, ?_, ?_⟩
  · intro record member isGram
    exact
      present (record.entry ofBytes) (List.mem_map_of_mem member) isGram
  · intro others
    apply absent
    intro entry member
    obtain ⟨record, isRecord, rfl⟩ := List.mem_map.mp member
    exact others record isRecord

/-- The grams `abcd` and `bcde`, with the numbers -1 and 0. -/
def twoRecords : List GramRecord :=
  [⟨[97, 98, 99, 100], [0, 0, 128, 191], rfl, rfl⟩,
    ⟨[98, 99, 100, 101], [0, 0, 0, 0], rfl, rfl⟩]

/-- The numbers of these records. -/
def twoNumbers (bytes : Bytes) : Rat :=
  if bytes = [0, 0, 128, 191] then -1 else 0

theorem loadNgramModel_faithful_twoRecords :
    ∃ table : NgramTable Rat,
      LoadsInto twoNumbers (modelFile twoRecords []) table.slots ∧
        ngramLogprob (exactArithmetic id) table [97, 98, 99, 100] = -1 := by
  obtain ⟨table, loads, lookup⟩ :=
    loadNgramModel_faithful (exactArithmetic id) twoNumbers twoRecords []
      (by decide) (by decide) (by decide)
  refine ⟨table, loads, ?_⟩
  have found :=
    (lookup [97, 98, 99, 100]).2.1
      ⟨[97, 98, 99, 100], [0, 0, 128, 191], rfl, rfl⟩
      List.mem_cons_self rfl
  rw [found]
  exact if_pos rfl

end DnsFirewall
