import Mathlib.Data.Finset.Max
import Mathlib.Data.Prod.Lex
import Mathlib.Algebra.GroupWithZero.Nat
import Crpg.Lib.Run

/-!
# The generational arena

`crpg-core/src/entity.rs`. An arena hands out entity ids, a slot index with the generation of the
slot, and refuses dead ones. This module embeds `GenerationalArena` with its four mutators
(`insert`, `remove`, `retireOrFree`, `clear`), its lookups, and the guarded decoder
`TryFrom<ArenaRepr>`, and proves what the arena promises over whole runs.

The invariant of one arena is `WellFormed`: the counter is the number of occupied slots, the free
set holds exactly the vacant slots that are not retired, and every generation lies between the
first one and the tombstone. It is what the decoder checks (`tryFrom_eq_ok_iff`), so a well formed
arena decodes from its own serialized form to itself (`tryFrom_toRepr`).

Ids are unique over runs, not in one state, so runs carry a ledger of the ids issued so far and of
the ids that died (`Ledger`). An issued id never lies above the generation of its slot, and lies at
it only while the slot is occupied (`Ledger.Accounted`); a removal moves the slot's generation past
it. Both facts survive every operation, and freshness of the next id follows.

The panic of `insert` on a full arena is `none`. Generations and indices are `u32` in the source
and natural numbers here; `WellFormed` bounds both.
-/

set_option autoImplicit false

namespace Crpg.Core

open Crpg.Lib

/-! ### Identity and storage -/

/-- `u32::MAX`. -/
def u32Max : ℕ := 4294967295

/-- The generation every slot is born with. -/
def firstGeneration : ℕ := 1

/-- The generation a retired slot is pinned at, never issued. -/
def retiredGeneration : ℕ := u32Max

/-- The highest generation an id can carry. -/
def lastIssuableGeneration : ℕ := retiredGeneration - 1

theorem firstGeneration_ne_retired : firstGeneration ≠ retiredGeneration := by decide

structure EntityId where
  index : ℕ
  generation : ℕ
deriving DecidableEq

/-- Ids are ordered by index, then by generation. -/
instance : LinearOrder EntityId :=
  LinearOrder.lift' (fun id ↦ toLex (id.index, id.generation)) fun first second h ↦ by
    have hpair : (first.index, first.generation) = (second.index, second.generation) :=
      toLex.injective h
    obtain ⟨index, generation⟩ := first
    obtain ⟨index, generation⟩ := second
    simpa using hpair

/-- A 128-bit stable identifier. -/
abbrev Ulid := Fin (2 ^ 128)

instance (priority := 1100) Ulid.neZero : NeZero (2 ^ 128 : ℕ) := ⟨by decide⟩

structure Slot (T : Type*) where
  generation : ℕ
  value : Option T
deriving DecidableEq

/-- What `value.take()` leaves of a slot. -/
def Slot.vacate {T : Type*} (slot : Slot T) : Slot T := { slot with value := none }

/-- The serialized shape of an arena: everything but the cached count. -/
structure ArenaRepr (T : Type*) where
  slots : List (Slot T)
  free : Finset ℕ

/-- The slot allocator: every slot ever allocated, the indices of the vacant slots that may be
allocated again, and the cached count of occupied slots. -/
structure GenerationalArena (T : Type*) where
  slots : List (Slot T)
  free : Finset ℕ
  len : ℕ
deriving DecidableEq

/-- The defects `TryFrom<ArenaRepr>` reports. -/
inductive ArenaDefect
  | slotCount
  | freeIndexRange
  | generationZero
  | occupiedButFree
  | occupiedAtRetired
  | retiredButFree
  | vacantNotFree
deriving DecidableEq

namespace GenerationalArena

variable {T : Type*}

/-! ### The operations -/

def new : GenerationalArena T := ⟨[], ∅, 0⟩

/-- `free.pop_first()`: the lowest free index and the set without it. -/
def popFirst (free : Finset ℕ) : Option (ℕ × Finset ℕ) :=
  if h : free.Nonempty then some (free.min' h, free.erase (free.min' h)) else none

/-- Inserts a value at the lowest free index, or at a new slot when none is free. `none` is the
panic of an arena that would need more than `u32::MAX` slots. -/
def insert (arena : GenerationalArena T) (value : T) : Option (EntityId × GenerationalArena T) :=
  match popFirst arena.free with
  | some (index, free) =>
    match arena.slots[index]? with
    | some slot =>
      some (⟨index, slot.generation⟩,
        ⟨arena.slots.set index { slot with value := some value }, free, arena.len + 1⟩)
    | none => none
  | none =>
    if arena.slots.length < u32Max then
      some (⟨arena.slots.length, firstGeneration⟩,
        ⟨arena.slots ++ [⟨firstGeneration, some value⟩], arena.free, arena.len + 1⟩)
    else none

/-- Advances the generation of a vacated slot and frees it, unless that would exhaust it. -/
def retireOrFree (free : Finset ℕ) (index : ℕ) (slot : Slot T) : Finset ℕ × Slot T :=
  if slot.generation < lastIssuableGeneration then
    (free ∪ {index}, { slot with generation := slot.generation + 1 })
  else (free, { slot with generation := retiredGeneration })

/-- Removes the entry an id addresses and returns it. -/
def remove (arena : GenerationalArena T) (id : EntityId) : Option T × GenerationalArena T :=
  match arena.slots[id.index]? with
  | none => (none, arena)
  | some slot =>
    if slot.generation ≠ id.generation then (none, arena)
    else
      match slot.value with
      | none => (none, arena)
      | some value =>
        let (free, vacated) := retireOrFree arena.free id.index slot.vacate
        (some value, ⟨arena.slots.set id.index vacated, free, arena.len - 1⟩)

/-- The entry an id addresses. -/
def get (arena : GenerationalArena T) (id : EntityId) : Option T :=
  match arena.slots[id.index]? with
  | none => none
  | some slot => if slot.generation = id.generation then slot.value else none

/-- Whether an id addresses a live entry. -/
def contains (arena : GenerationalArena T) (id : EntityId) : Bool :=
  (arena.get id).isSome

/-- The loop of `clear` from slot `index` on. -/
def clearSlots (index : ℕ) (free : Finset ℕ) : List (Slot T) → List (Slot T) × Finset ℕ
  | [] => ([], free)
  | slot :: rest =>
    let (free, slot) :=
      if slot.value.isSome then retireOrFree free index slot.vacate
      else (free, slot)
    let (rest, free) := clearSlots (index + 1) free rest
    (slot :: rest, free)

/-- Removes every entry, keeping the slots. -/
def clear (arena : GenerationalArena T) : GenerationalArena T :=
  let (slots, free) := clearSlots 0 arena.free arena.slots
  ⟨slots, free, 0⟩

/-- The live entries with their ids from slot `index` on, in ascending index order. -/
def iterFrom (index : ℕ) : List (Slot T) → List (EntityId × T)
  | [] => []
  | slot :: rest =>
    match slot.value with
    | some value => (⟨index, slot.generation⟩, value) :: iterFrom (index + 1) rest
    | none => iterFrom (index + 1) rest

/-- The live entries with their ids, in ascending index order. -/
def iter (arena : GenerationalArena T) : List (EntityId × T) := iterFrom 0 arena.slots

/-- The live ids, in ascending index order. -/
def ids (arena : GenerationalArena T) : List EntityId := arena.iter.map Prod.fst

/-! ### The serialized form -/

/-- What the derived `Serialize` writes. -/
def toRepr (arena : GenerationalArena T) : ArenaRepr T := ⟨arena.slots, arena.free⟩

/-- The check of one slot in `TryFrom<ArenaRepr>`: the count after it, or its defect. -/
def checkSlot (free : Finset ℕ) (index len : ℕ) (slot : Slot T) : Except ArenaDefect ℕ :=
  if slot.generation = 0 then .error .generationZero
  else
    match slot.value.isSome, decide (index ∈ free) with
    | true, onFree =>
      if slot.generation = retiredGeneration then .error .occupiedAtRetired
      else if onFree then .error .occupiedButFree
      else .ok (len + 1)
    | false, true =>
      if slot.generation = retiredGeneration then .error .retiredButFree else .ok len
    | false, false =>
      if slot.generation ≠ retiredGeneration then .error .vacantNotFree else .ok len

/-- The loop of `TryFrom<ArenaRepr>` from slot `index` on. -/
def checkSlots (free : Finset ℕ) (index len : ℕ) : List (Slot T) → Except ArenaDefect ℕ
  | [] => .ok len
  | slot :: rest =>
    match checkSlot free index len slot with
    | .error defect => .error defect
    | .ok len => checkSlots free (index + 1) len rest

/-- `free.iter().next_back()`: the highest free index. -/
def nextBack (free : Finset ℕ) : Option ℕ :=
  if h : free.Nonempty then some (free.max' h) else none

/-- Rebuilds an arena from its serialized form, rejecting one whose slots and free set
disagree. -/
def tryFrom (repr : ArenaRepr T) : Except ArenaDefect (GenerationalArena T) :=
  if u32Max < repr.slots.length then .error .slotCount
  else if (nextBack repr.free).any (repr.slots.length ≤ ·) then .error .freeIndexRange
  else
    match checkSlots repr.free 0 0 repr.slots with
    | .error defect => .error defect
    | .ok len => .ok ⟨repr.slots, repr.free, len⟩

/-! ### The invariant of one arena -/

/-- What one slot owes the free set: a generation that is never zero, occupied only below the
tombstone and off the free set, and vacant exactly free or retired. -/
structure SlotCoherent (free : Finset ℕ) (index : ℕ) (slot : Slot T) : Prop where
  first_le : firstGeneration ≤ slot.generation
  occupied : slot.value.isSome → slot.generation ≠ retiredGeneration ∧ index ∉ free
  vacant : slot.value = none → (index ∈ free ↔ slot.generation ≠ retiredGeneration)

structure WellFormed (arena : GenerationalArena T) : Prop where
  slots_le : arena.slots.length ≤ u32Max
  free_lt : ∀ index ∈ arena.free, index < arena.slots.length
  coherent : ∀ (index : ℕ) (slot : Slot T), arena.slots[index]? = some slot →
    SlotCoherent arena.free index slot
  generation_le : ∀ (index : ℕ) (slot : Slot T), arena.slots[index]? = some slot →
    slot.generation ≤ retiredGeneration
  len_eq : arena.len = arena.slots.countP fun slot ↦ slot.value.isSome

theorem wellFormed_new : WellFormed (new : GenerationalArena T) where
  slots_le := Nat.zero_le _
  free_lt := by simp [new]
  coherent := by simp [new]
  generation_le := by simp [new]
  len_eq := rfl

variable {arena : GenerationalArena T}

theorem WellFormed.mem_free_iff (harena : arena.WellFormed) (index : ℕ) :
    index ∈ arena.free ↔ ∃ slot, arena.slots[index]? = some slot ∧ slot.value = none ∧
      slot.generation ≠ retiredGeneration := by
  constructor
  · intro hfree
    obtain ⟨slot, hslot⟩ : ∃ slot, arena.slots[index]? = some slot :=
      ⟨_, List.getElem?_eq_getElem (harena.free_lt index hfree)⟩
    have hcoherent := harena.coherent index slot hslot
    have hvacant : slot.value = none := by
      by_contra hvalue
      exact (hcoherent.occupied (Option.isSome_iff_ne_none.mpr hvalue)).2 hfree
    exact ⟨slot, hslot, hvacant, (hcoherent.vacant hvacant).mp hfree⟩
  · rintro ⟨slot, hslot, hvacant, hgeneration⟩
    exact ((harena.coherent index slot hslot).vacant hvacant).mpr hgeneration

/-! ### How a slot moves -/

/-- A slot moves forward: its generation grows, or stays and an occupied slot stays occupied. -/
def Advances (before after : Slot T) : Prop :=
  before.generation < after.generation ∨
    before.generation = after.generation ∧ (before.value.isSome → after.value.isSome)

theorem Advances.refl (slot : Slot T) : Advances slot slot := Or.inr ⟨rfl, id⟩

def Evolves (before after : GenerationalArena T) : Prop :=
  ∀ (index : ℕ) (slot : Slot T), before.slots[index]? = some slot →
    ∃ moved, after.slots[index]? = some moved ∧ Advances slot moved

theorem Evolves.refl (arena : GenerationalArena T) : Evolves arena arena :=
  fun _ slot hslot ↦ ⟨slot, hslot, Advances.refl slot⟩

variable {index : ℕ} {slot moved : Slot T} {free : Finset ℕ} {next : GenerationalArena T}
  {value : T} {id other : EntityId}

theorem evolves_set {len : ℕ} (hslot : arena.slots[index]? = some slot)
    (hmoved : Advances slot moved) : Evolves arena ⟨arena.slots.set index moved, free, len⟩ := by
  intro other before hbefore
  by_cases hindex : index = other
  · subst hindex
    rw [hslot, Option.some.injEq] at hbefore
    subst hbefore
    have hlt : index < arena.slots.length := (List.getElem?_eq_some_iff.mp hslot).1
    exact ⟨moved, by simp [hlt], hmoved⟩
  · exact ⟨before, by simpa [List.getElem?_set_ne hindex] using hbefore, Advances.refl before⟩

/-! ### Insertion -/

theorem popFirst_eq_some {rest : Finset ℕ} (hpop : popFirst free = some (index, rest)) :
    index ∈ free ∧ rest = free.erase index := by
  unfold popFirst at hpop
  split_ifs at hpop with hnonempty
  rw [Option.some.injEq, Prod.mk.injEq] at hpop
  obtain ⟨rfl, rfl⟩ := hpop
  exact ⟨Finset.min'_mem free hnonempty, rfl⟩

theorem popFirst_eq_none (hpop : popFirst free = none) : free = ∅ := by
  unfold popFirst at hpop
  split_ifs at hpop with hnonempty
  exact Finset.not_nonempty_iff_eq_empty.mp hnonempty

/-- What an insertion did: it filled a vacant slot off the free set, or it appended one. -/
theorem insert_cases (harena : arena.WellFormed) (hinsert : arena.insert value = some (id, next)) :
    (∃ slot, arena.slots[id.index]? = some slot ∧ slot.value = none ∧ id.index ∈ arena.free ∧
      slot.generation ≠ retiredGeneration ∧ id.generation = slot.generation ∧
      next = ⟨arena.slots.set id.index { slot with value := some value },
        arena.free.erase id.index, arena.len + 1⟩) ∨
    (arena.free = ∅ ∧ arena.slots.length < u32Max ∧
      id = ⟨arena.slots.length, firstGeneration⟩ ∧
      next = ⟨arena.slots ++ [⟨firstGeneration, some value⟩], ∅, arena.len + 1⟩) := by
  unfold insert at hinsert
  split at hinsert
  next index free hpop =>
    obtain ⟨hmem, rfl⟩ := popFirst_eq_some hpop
    obtain ⟨slot, hslot, hvacant, hgeneration⟩ := (harena.mem_free_iff index).mp hmem
    simp only [hslot, Option.some.injEq, Prod.mk.injEq] at hinsert
    obtain ⟨rfl, rfl⟩ := hinsert
    exact Or.inl ⟨slot, hslot, hvacant, hmem, hgeneration, rfl, rfl⟩
  next hpop =>
    have hempty := popFirst_eq_none hpop
    split_ifs at hinsert with hroom
    rw [Option.some.injEq, Prod.mk.injEq, hempty] at hinsert
    obtain ⟨rfl, rfl⟩ := hinsert
    exact Or.inr ⟨hempty, hroom, rfl, rfl⟩

theorem evolves_insert (harena : arena.WellFormed)
    (hinsert : arena.insert value = some (id, next)) : Evolves arena next := by
  obtain ⟨slot, hslot, hvacant, -, -, -, rfl⟩ | ⟨-, -, -, rfl⟩ := insert_cases harena hinsert
  · exact evolves_set hslot (Or.inr ⟨rfl, fun _ ↦ rfl⟩)
  · intro index slot hslot
    have hlt : index < arena.slots.length := (List.getElem?_eq_some_iff.mp hslot).1
    exact ⟨slot, by rw [List.getElem?_append_left hlt]; exact hslot, Advances.refl slot⟩

theorem getElem?_insert (harena : arena.WellFormed)
    (hinsert : arena.insert value = some (id, next)) :
    next.slots[id.index]? = some ⟨id.generation, some value⟩ := by
  obtain ⟨slot, hslot, -, -, -, hgeneration, rfl⟩ | ⟨-, -, rfl, rfl⟩ :=
    insert_cases harena hinsert
  · have hlt : id.index < arena.slots.length := (List.getElem?_eq_some_iff.mp hslot).1
    simp [hlt, hgeneration]
  · simp

/-- Assumes: a list with a known element at a position. The count after replacing that element is
the old count less what the old element counted plus what the new one counts. -/
theorem countP_set_add {α : Type*} (p : α → Bool) {list : List α} {before : α}
    (hbefore : list[index]? = some before) (after : α) :
    (list.set index after).countP p + (if p before then 1 else 0) =
      list.countP p + (if p after then 1 else 0) := by
  induction list generalizing index with
  | nil => simp at hbefore
  | cons head rest ih =>
    cases index with
    | zero =>
      rw [List.getElem?_cons_zero, Option.some.injEq] at hbefore
      subst hbefore
      simp only [List.set_cons_zero, List.countP_cons]
      omega
    | succ index =>
      rw [List.getElem?_cons_succ] at hbefore
      have hrest := ih hbefore
      simp only [List.set_cons_succ, List.countP_cons]
      omega

theorem coherent_set (harena : arena.WellFormed)
    (hfree : ∀ other, other ≠ index → (other ∈ free ↔ other ∈ arena.free))
    (hmoved : SlotCoherent free index moved) (other : ℕ) (slot : Slot T)
    (hslot : (arena.slots.set index moved)[other]? = some slot) : SlotCoherent free other slot := by
  by_cases hindex : index = other
  · subst hindex
    rw [List.getElem?_set] at hslot
    simp only [if_true] at hslot
    split_ifs at hslot with hlt
    rw [Option.some.injEq] at hslot
    exact hslot ▸ hmoved
  · rw [List.getElem?_set_ne hindex] at hslot
    have hcoherent := harena.coherent other slot hslot
    have hsame := hfree other (Ne.symm hindex)
    exact ⟨hcoherent.first_le, fun hvalue ↦ ⟨(hcoherent.occupied hvalue).1,
      fun hmem ↦ (hcoherent.occupied hvalue).2 (hsame.mp hmem)⟩,
      fun hvalue ↦ hsame.trans (hcoherent.vacant hvalue)⟩

/-- Replacing one slot by one whose generation is at most the tombstone keeps the bound. -/
theorem generation_le_set (harena : arena.WellFormed)
    (hmoved : moved.generation ≤ retiredGeneration) (other : ℕ) (slot : Slot T)
    (hslot : (arena.slots.set index moved)[other]? = some slot) :
    slot.generation ≤ retiredGeneration := by
  rcases List.mem_or_eq_of_mem_set (List.mem_of_getElem? hslot) with hmem | rfl
  · obtain ⟨position, hposition⟩ := List.mem_iff_getElem?.mp hmem
    exact harena.generation_le position slot hposition
  · exact hmoved

theorem wellFormed_insert (harena : arena.WellFormed)
    (hinsert : arena.insert value = some (id, next)) : next.WellFormed := by
  obtain ⟨slot, hslot, hvacant, hmem, hgeneration, -, rfl⟩ | ⟨hempty, hroom, -, rfl⟩ :=
    insert_cases harena hinsert
  · have hcoherent := harena.coherent id.index slot hslot
    refine ⟨by simpa using harena.slots_le, fun other hother ↦ ?_, ?_, ?_, ?_⟩
    · simpa using harena.free_lt other (Finset.mem_of_mem_erase hother)
    · refine coherent_set harena (fun other hne ↦ by simp [hne]) ⟨hcoherent.first_le, ?_, ?_⟩
      · exact fun _ ↦ ⟨hgeneration, Finset.notMem_erase _ _⟩
      · exact fun hvalue ↦ absurd hvalue (Option.some_ne_none value)
    · exact generation_le_set harena (harena.generation_le id.index slot hslot)
    · have hcount := countP_set_add (fun slot ↦ slot.value.isSome) hslot
        { slot with value := some value }
      simp only [hvacant, Option.isSome_none, Option.isSome_some, Bool.false_eq_true, if_true,
        if_false] at hcount
      simp only [harena.len_eq]
      omega
  · -- The new slot is occupied and the free set is empty, so nothing can be wrongly free.
    have hbefore (index : ℕ) (slot : Slot T)
        (hslot : (arena.slots ++ [⟨firstGeneration, some value⟩])[index]? = some slot) :
        arena.slots[index]? = some slot ∨ slot = ⟨firstGeneration, some value⟩ := by
      rw [List.getElem?_append] at hslot
      split_ifs at hslot with hlt
      · exact Or.inl hslot
      · exact Or.inr (by simpa using List.mem_of_getElem? hslot)
    refine ⟨?_, by simp, fun index slot hslot ↦ ?_, fun index slot hslot ↦ ?_, ?_⟩
    · rw [List.length_append, List.length_singleton]
      omega
    · rcases hbefore index slot hslot with hold | rfl
      · rw [← hempty]
        exact harena.coherent index slot hold
      · exact ⟨le_refl _, fun _ ↦ ⟨firstGeneration_ne_retired, Finset.notMem_empty _⟩,
          fun hvalue ↦ absurd hvalue (Option.some_ne_none value)⟩
    · rcases hbefore index slot hslot with hold | rfl
      · exact harena.generation_le index slot hold
      · exact (by decide : firstGeneration ≤ retiredGeneration)
    · simp [List.countP_append, harena.len_eq]

/-! ### Removal -/

/-- What freeing a vacated slot does: the generation grows, stays within the tombstone, and the
slot is free exactly while it is not retired. -/
theorem retireOrFree_spec (hgeneration : slot.generation ≤ lastIssuableGeneration)
    (hnotFree : index ∉ free) :
    slot.generation < (retireOrFree free index slot.vacate).2.generation ∧
      (retireOrFree free index slot.vacate).2.generation ≤ retiredGeneration ∧
      (retireOrFree free index slot.vacate).2.value = none ∧ (∀ other, other ≠ index →
        (other ∈ (retireOrFree free index slot.vacate).1 ↔ other ∈ free)) ∧
      (index ∈ (retireOrFree free index slot.vacate).1 ↔
        (retireOrFree free index slot.vacate).2.generation ≠ retiredGeneration) := by
  have hlast : lastIssuableGeneration + 1 = retiredGeneration := rfl
  unfold retireOrFree Slot.vacate
  split_ifs with hroom
  · replace hroom : slot.generation < lastIssuableGeneration := hroom
    refine ⟨Nat.lt_succ_self _, ?_, rfl, fun other hother ↦ by simp [hother], ?_⟩
    · change slot.generation + 1 ≤ retiredGeneration
      omega
    · have hbelow : slot.generation + 1 ≠ retiredGeneration := by omega
      simpa using hbelow
  · refine ⟨?_, le_refl _, rfl, fun other _ ↦ Iff.rfl, ?_⟩
    · change slot.generation < retiredGeneration
      omega
    · simpa using hnotFree

theorem remove_cases (arena : GenerationalArena T) (id : EntityId) :
    ((arena.remove id).1 = none ∧ (arena.remove id).2 = arena ∧ arena.get id = none) ∨
    (∃ slot value, arena.slots[id.index]? = some slot ∧ slot.generation = id.generation ∧
      slot.value = some value ∧ (arena.remove id).1 = some value ∧
      (arena.remove id).2 = ⟨arena.slots.set id.index
        (retireOrFree arena.free id.index slot.vacate).2,
        (retireOrFree arena.free id.index slot.vacate).1, arena.len - 1⟩) := by
  unfold remove get
  cases hslot : arena.slots[id.index]? with
  | none => exact Or.inl ⟨rfl, rfl, rfl⟩
  | some slot =>
    by_cases hgeneration : slot.generation = id.generation
    · cases hvalue : slot.value with
      | none => exact Or.inl (by simp [hgeneration, hvalue])
      | some value => exact Or.inr ⟨slot, value, rfl, hgeneration, hvalue, by simp [hgeneration, hvalue],
          by simp [hgeneration, hvalue]⟩
    · exact Or.inl (by simp [hgeneration])

theorem WellFormed.occupied_le (harena : arena.WellFormed)
    (hslot : arena.slots[index]? = some slot) (hvalue : slot.value.isSome) :
    slot.generation ≤ lastIssuableGeneration := by
  have hlast : lastIssuableGeneration + 1 = retiredGeneration := rfl
  have hbound := harena.generation_le index slot hslot
  have hne := ((harena.coherent index slot hslot).occupied hvalue).1
  omega

theorem contains_iff : arena.contains id = true ↔ ∃ slot, arena.slots[id.index]? = some slot ∧
      slot.generation = id.generation ∧ slot.value.isSome = true := by
  unfold contains get
  cases arena.slots[id.index]? with
  | none => simp
  | some slot => by_cases hgeneration : slot.generation = id.generation <;> simp [hgeneration]

section

variable (harena : arena.WellFormed)
include harena

theorem WellFormed.generation_issued (hlive : arena.contains id = true) :
    id.generation ≠ 0 ∧ id.generation ≠ retiredGeneration := by
  obtain ⟨slot, hslot, hgeneration, hvalue⟩ := contains_iff.mp hlive
  have hcoherent := harena.coherent _ _ hslot
  have hfirst : firstGeneration ≤ slot.generation := hcoherent.first_le
  have hpositive : 0 < firstGeneration := Nat.one_pos
  refine ⟨by omega, ?_⟩
  rw [← hgeneration]
  exact (hcoherent.occupied hvalue).1

/-- The id an insertion returns is live, and the live ids stay live. -/
theorem contains_insert (hinsert : arena.insert value = some (id, next)) : next.contains id = true ∧
      ∀ other, arena.contains other = true → next.contains other = true := by
  refine ⟨contains_iff.mpr ⟨_, getElem?_insert harena hinsert, rfl, rfl⟩, fun other hlive ↦ ?_⟩
  obtain ⟨found, hfound, hgeneration, hvalue⟩ := contains_iff.mp hlive
  obtain ⟨slot, hslot, hvacant, -, -, -, rfl⟩ | ⟨-, -, -, rfl⟩ := insert_cases harena hinsert
  · have hne : id.index ≠ other.index := by
      intro hsame
      rw [hsame, hfound, Option.some.injEq] at hslot
      rw [hslot, hvacant] at hvalue
      cases hvalue
    refine contains_iff.mpr ⟨found, ?_, hgeneration, hvalue⟩
    rw [List.getElem?_set_ne hne]
    exact hfound
  · have hlt : other.index < arena.slots.length := (List.getElem?_eq_some_iff.mp hfound).1
    refine contains_iff.mpr ⟨found, ?_, hgeneration, hvalue⟩
    rw [List.getElem?_append_left hlt]
    exact hfound

/-- The live ids after an insertion are the new one and the old ones. -/
theorem contains_insert_iff (hinsert : arena.insert value = some (id, next)) :
    next.contains other = true ↔ other = id ∨ arena.contains other = true := by
  obtain ⟨hminted, hold⟩ := contains_insert harena hinsert
  refine ⟨fun hlive ↦ ?_, fun hcase ↦ hcase.elim (fun heq ↦ heq ▸ hminted) (hold other)⟩
  obtain ⟨found, hfound, hgeneration, hvalue⟩ := contains_iff.mp hlive
  by_cases hindex : id.index = other.index
  · have hat := getElem?_insert harena hinsert
    rw [hindex, hfound, Option.some.injEq] at hat
    rw [hat] at hgeneration
    refine Or.inl ?_
    obtain ⟨index, generation⟩ := id
    obtain ⟨otherIndex, otherGeneration⟩ := other
    simp only at hindex hgeneration
    rw [hindex, hgeneration]
  · refine Or.inr (contains_iff.mpr ⟨found, ?_, hgeneration, hvalue⟩)
    obtain ⟨slot, -, -, -, -, -, rfl⟩ | ⟨-, -, rfl, rfl⟩ := insert_cases harena hinsert
    · rwa [List.getElem?_set_ne hindex] at hfound
    · have hlt := (List.getElem?_eq_some_iff.mp hfound).1
      rw [List.length_append, List.length_singleton] at hlt
      have hbelow : other.index < arena.slots.length := by
        have hne : arena.slots.length ≠ other.index := hindex
        omega
      rwa [List.getElem?_append_left hbelow] at hfound

/-- An insertion fails only without a free slot and with every index taken. -/
theorem insert_eq_none_iff :
    arena.insert value = none ↔ arena.free = ∅ ∧ u32Max ≤ arena.slots.length := by
  unfold insert
  split
  next index free hpop =>
    obtain ⟨hmem, rfl⟩ := popFirst_eq_some hpop
    obtain ⟨slot, hslot, -, -⟩ := (harena.mem_free_iff index).mp hmem
    rw [hslot]
    exact ⟨nofun, fun ⟨hempty, _⟩ ↦ absurd (hempty ▸ hmem) (Finset.notMem_empty index)⟩
  next hpop =>
    rw [popFirst_eq_none hpop]
    split_ifs with hroom
    · exact ⟨nofun, fun ⟨_, hfull⟩ ↦ absurd hroom (not_lt.mpr hfull)⟩
    · exact ⟨fun _ ↦ ⟨rfl, not_lt.mp hroom⟩, fun _ ↦ rfl⟩

/-- The id an insertion returns was not live. -/
theorem not_contains_of_insert (hinsert : arena.insert value = some (id, next)) :
    arena.contains id = false := by
  rw [← Bool.not_eq_true, contains_iff]
  rintro ⟨found, hfound, -, hvalue⟩
  obtain ⟨slot, hslot, hvacant, -⟩ | ⟨-, -, rfl, -⟩ := insert_cases harena hinsert
  · rw [hfound, Option.some.injEq] at hslot
    rw [hslot, hvacant] at hvalue
    cases hvalue
  · have hlt := (List.getElem?_eq_some_iff.mp hfound).1
    exact absurd hlt (lt_irrefl _)

end

theorem contains_remove_of_ne (hother : arena.contains other = true) (hne : other ≠ id) :
    (arena.remove id).2.contains other = true := by
  obtain ⟨-, hsame, -⟩ | ⟨slot, value, hslot, hgeneration, -, -, hnext⟩ := remove_cases arena id
  · rw [hsame]
    exact hother
  · obtain ⟨found, hfound, hfoundGeneration, hvalue⟩ := contains_iff.mp hother
    have hindex : id.index ≠ other.index := by
      intro hsame
      rw [hsame, hfound, Option.some.injEq] at hslot
      apply hne
      obtain ⟨index, generation⟩ := id
      obtain ⟨otherIndex, otherGeneration⟩ := other
      simp only at hsame hgeneration hfoundGeneration
      rw [hslot] at hfoundGeneration
      rw [hsame, ← hgeneration, ← hfoundGeneration]
    rw [hnext]
    refine contains_iff.mpr ⟨found, ?_, hfoundGeneration, hvalue⟩
    rw [List.getElem?_set_ne hindex]
    exact hfound

theorem evolves_remove (harena : arena.WellFormed) (id : EntityId) :
    Evolves arena (arena.remove id).2 := by
  obtain ⟨-, hsame, -⟩ | ⟨slot, value, hslot, -, hvalue, -, hnext⟩ := remove_cases arena id
  · rw [hsame]
    exact Evolves.refl arena
  · have hoccupied : slot.value.isSome := by rw [hvalue]; rfl
    have hspec := retireOrFree_spec (harena.occupied_le hslot hoccupied)
      ((harena.coherent _ _ hslot).occupied hoccupied).2
    rw [hnext]
    exact evolves_set hslot (Or.inl hspec.1)

/-- A removal that returned a value moved the slot's generation past the id. -/
theorem generation_lt_remove (harena : arena.WellFormed) (hremoved : (arena.remove id).1.isSome) :
    ∃ slot, (arena.remove id).2.slots[id.index]? = some slot ∧ id.generation < slot.generation := by
  obtain ⟨hnone, -, -⟩ | ⟨slot, value, hslot, hgeneration, hvalue, -, hnext⟩ :=
    remove_cases arena id
  · rw [hnone] at hremoved
    simp at hremoved
  · have hoccupied : slot.value.isSome := by rw [hvalue]; rfl
    have hspec := retireOrFree_spec (harena.occupied_le hslot hoccupied)
      ((harena.coherent _ _ hslot).occupied hoccupied).2
    have hlt : id.index < arena.slots.length := (List.getElem?_eq_some_iff.mp hslot).1
    rw [hnext]
    exact ⟨_, by simp only [List.getElem?_set_self hlt], hgeneration ▸ hspec.1⟩

/-- The live ids after a removal are the others. -/
theorem contains_remove_iff (harena : arena.WellFormed) :
    (arena.remove id).2.contains other = true ↔ arena.contains other = true ∧ other ≠ id := by
  refine ⟨fun hlive ↦ ?_, fun ⟨hlive, hne⟩ ↦ contains_remove_of_ne hlive hne⟩
  obtain ⟨found, hfound, hgeneration, hvalue⟩ := contains_iff.mp hlive
  obtain ⟨-, hsame, hnone⟩ | ⟨slot, value, hslot, -, hoccupied, -, hnext⟩ :=
    remove_cases arena id
  · rw [hsame] at hlive
    refine ⟨hlive, ?_⟩
    rintro rfl
    rw [contains, hnone] at hlive
    cases hlive
  · have hindex : id.index ≠ other.index := by
      intro hsame
      have hspec := retireOrFree_spec (harena.occupied_le hslot (by rw [hoccupied]; rfl))
        ((harena.coherent _ _ hslot).occupied (by rw [hoccupied]; rfl)).2
      have hlt : id.index < arena.slots.length := (List.getElem?_eq_some_iff.mp hslot).1
      rw [hnext, ← hsame] at hfound
      simp only [List.getElem?_set_self hlt, Option.some.injEq] at hfound
      rw [← hfound, hspec.2.2.1] at hvalue
      cases hvalue
    rw [hnext] at hfound
    simp only [List.getElem?_set_ne hindex] at hfound
    exact ⟨contains_iff.mpr ⟨found, hfound, hgeneration, hvalue⟩, fun heq ↦
      hindex (congrArg EntityId.index heq).symm⟩

theorem wellFormed_remove (harena : arena.WellFormed) (id : EntityId) :
    (arena.remove id).2.WellFormed := by
  obtain ⟨-, hsame, -⟩ | ⟨slot, value, hslot, -, hvalue, -, hnext⟩ := remove_cases arena id
  · rw [hsame]
    exact harena
  · have hoccupied : slot.value.isSome := by rw [hvalue]; rfl
    obtain ⟨hgrows, hbound, hvacant, hothers, hfree⟩ :=
      retireOrFree_spec (harena.occupied_le hslot hoccupied)
        ((harena.coherent _ _ hslot).occupied hoccupied).2
    have hlt : id.index < arena.slots.length := (List.getElem?_eq_some_iff.mp hslot).1
    have hfirst := (harena.coherent _ _ hslot).first_le
    rw [hnext]
    refine ⟨by simpa using harena.slots_le, fun other hother ↦ ?_, ?_, ?_, ?_⟩
    · by_cases hindex : other = id.index
      · simpa [hindex] using hlt
      · simpa using harena.free_lt other ((hothers other hindex).mp hother)
    · refine coherent_set harena hothers ⟨le_trans hfirst (le_of_lt hgrows), ?_, fun _ ↦ hfree⟩
      intro hsome
      rw [hvacant] at hsome
      simp at hsome
    · exact generation_le_set harena hbound
    · have hcount := countP_set_add (fun slot ↦ slot.value.isSome) hslot
        (retireOrFree arena.free id.index slot.vacate).2
      rw [hvalue, hvacant] at hcount
      simp only [Option.isSome_none, Option.isSome_some, Bool.false_eq_true, if_true,
        if_false] at hcount
      simp only [harena.len_eq]
      omega

/-! ### Clearing -/

/-- What `clear` makes of one slot. -/
def clearedSlot (slot : Slot T) : Slot T :=
  if slot.value.isSome then (retireOrFree ∅ 0 slot.vacate).2 else slot

theorem retireOrFree_snd (free : Finset ℕ) (index : ℕ) (slot : Slot T) :
    (retireOrFree free index slot).2 = (retireOrFree ∅ 0 slot).2 := by
  unfold retireOrFree
  split_ifs <;> rfl

/-- The slots `clear` leaves. -/
theorem clearSlots_fst (index : ℕ) (free : Finset ℕ) (slots : List (Slot T)) :
    (clearSlots index free slots).1 = slots.map clearedSlot := by
  induction slots generalizing index free with
  | nil => rfl
  | cons slot rest ih =>
    simp only [clearSlots, List.map_cons, ih, clearedSlot]
    split_ifs with hvalue
    · rw [retireOrFree_snd]
    · rfl

/-- The indices `clear` leaves free: those free before, and those of the occupied slots that can
still be issued. -/
theorem mem_clearSlots_snd (index : ℕ) (free : Finset ℕ) (slots : List (Slot T)) (other : ℕ) :
    other ∈ (clearSlots index free slots).2 ↔ other ∈ free ∨
      ∃ (offset : ℕ) (slot : Slot T), slots[offset]? = some slot ∧ slot.value.isSome ∧
        slot.generation < lastIssuableGeneration ∧ other = index + offset := by
  induction slots generalizing index free with
  | nil => simp [clearSlots]
  | cons slot rest ih =>
    simp only [clearSlots, ih]
    have hhead : other ∈ (if slot.value.isSome then retireOrFree free index slot.vacate
        else (free, slot)).1 ↔ other ∈ free ∨ (slot.value.isSome ∧
          slot.generation < lastIssuableGeneration ∧ other = index) := by
      unfold retireOrFree Slot.vacate
      split_ifs with hvalue hroom <;> simp_all [or_comm]
    rw [hhead, or_assoc]
    refine or_congr_right ⟨?_, ?_⟩
    · rintro (⟨hvalue, hroom, rfl⟩ | ⟨offset, found, hfound, hvalue, hroom, rfl⟩)
      · exact ⟨0, slot, rfl, hvalue, hroom, rfl⟩
      · exact ⟨offset + 1, found, hfound, hvalue, hroom, by omega⟩
    · rintro ⟨offset, found, hfound, hvalue, hroom, rfl⟩
      cases offset with
      | zero =>
        rw [List.getElem?_cons_zero, Option.some.injEq] at hfound
        subst hfound
        exact Or.inl ⟨hvalue, hroom, rfl⟩
      | succ offset => exact Or.inr ⟨offset, found, hfound, hvalue, hroom, by omega⟩

theorem clear_slots (arena : GenerationalArena T) :
    arena.clear.slots = arena.slots.map clearedSlot :=
  clearSlots_fst 0 arena.free arena.slots

theorem clearedSlot_value (slot : Slot T) : (clearedSlot slot).value = none := by
  unfold clearedSlot retireOrFree Slot.vacate
  split_ifs with hvalue
  · rfl
  · rfl
  · simpa using hvalue

/-- Clearing moves an occupied slot of an issuable generation past its generation, and leaves a
vacant slot alone. -/
theorem clearedSlot_generation
    (hslot : slot.value.isSome → slot.generation ≤ lastIssuableGeneration) :
    (slot.value.isSome → slot.generation < (clearedSlot slot).generation ∧
      (clearedSlot slot).generation ≤ retiredGeneration ∧
      ((clearedSlot slot).generation ≠ retiredGeneration ↔
        slot.generation < lastIssuableGeneration)) ∧
      (¬ slot.value.isSome → clearedSlot slot = slot) := by
  have hlast : lastIssuableGeneration + 1 = retiredGeneration := rfl
  unfold clearedSlot retireOrFree Slot.vacate
  constructor
  · intro hvalue
    have hbound := hslot hvalue
    simp only [hvalue, if_true]
    split_ifs with hroom
    · have hbelow : slot.generation + 1 < retiredGeneration := by omega
      exact ⟨Nat.lt_succ_self _, le_of_lt hbelow, ⟨fun _ ↦ hroom, fun _ ↦ ne_of_lt hbelow⟩⟩
    · have hlt : slot.generation < retiredGeneration := by omega
      exact ⟨hlt, le_refl _, ⟨fun hne ↦ absurd rfl hne, fun hlt ↦ absurd hlt hroom⟩⟩
  · intro hvalue
    simp only [hvalue, if_false, Bool.false_eq_true]

theorem evolves_clear (harena : arena.WellFormed) : Evolves arena arena.clear := by
  intro index slot hslot
  have hmoved := clearedSlot_generation fun hvalue ↦ harena.occupied_le hslot hvalue
  refine ⟨clearedSlot slot, by simp [clear_slots, hslot], ?_⟩
  by_cases hvalue : slot.value.isSome
  · exact Or.inl (hmoved.1 hvalue).1
  · rw [hmoved.2 hvalue]
    exact Advances.refl slot

theorem wellFormed_clear (harena : arena.WellFormed) : arena.clear.WellFormed := by
  have hfree (other : ℕ) : other ∈ arena.clear.free ↔ other ∈ arena.free ∨
      ∃ slot, arena.slots[other]? = some slot ∧ slot.value.isSome ∧
        slot.generation < lastIssuableGeneration := by
    refine (mem_clearSlots_snd 0 arena.free arena.slots other).trans (or_congr_right ?_)
    simp only [Nat.zero_add]
    exact ⟨fun ⟨offset, slot, hslot, hvalue, hroom, hindex⟩ ↦
      ⟨slot, hindex ▸ hslot, hvalue, hroom⟩,
      fun ⟨slot, hslot, hvalue, hroom⟩ ↦ ⟨other, slot, hslot, hvalue, hroom, rfl⟩⟩
  have hbefore (index : ℕ) (cleared : Slot T) (hcleared : arena.clear.slots[index]? = some cleared) :
      ∃ slot, arena.slots[index]? = some slot ∧ cleared = clearedSlot slot := by
    rw [clear_slots, List.getElem?_map, Option.map_eq_some_iff] at hcleared
    obtain ⟨slot, hslot, rfl⟩ := hcleared
    exact ⟨slot, hslot, rfl⟩
  refine ⟨by simpa [clear_slots] using harena.slots_le, fun other hother ↦ ?_,
    fun index cleared hcleared ↦ ?_, fun index cleared hcleared ↦ ?_, ?_⟩
  · rw [clear_slots, List.length_map]
    rcases (hfree other).mp hother with hmem | ⟨slot, hslot, -, -⟩
    · exact harena.free_lt other hmem
    · exact (List.getElem?_eq_some_iff.mp hslot).1
  · obtain ⟨slot, hslot, rfl⟩ := hbefore index cleared hcleared
    have hcoherent := harena.coherent index slot hslot
    have hmoved := clearedSlot_generation fun hvalue ↦ harena.occupied_le hslot hvalue
    refine ⟨?_, fun hvalue ↦ ?_, fun _ ↦ ?_⟩
    · by_cases hvalue : slot.value.isSome
      · exact le_trans hcoherent.first_le (le_of_lt (hmoved.1 hvalue).1)
      · rw [hmoved.2 hvalue]
        exact hcoherent.first_le
    · rw [clearedSlot_value] at hvalue
      simp at hvalue
    · rw [hfree]
      by_cases hvalue : slot.value.isSome
      · rw [(hmoved.1 hvalue).2.2]
        have hnotFree := (hcoherent.occupied hvalue).2
        simp [hnotFree, hslot, hvalue]
      · rw [hmoved.2 hvalue]
        have hvacant : slot.value = none := by simpa using hvalue
        rw [hcoherent.vacant hvacant]
        simp [hslot, hvacant]
  · obtain ⟨slot, hslot, rfl⟩ := hbefore index cleared hcleared
    have hmoved := clearedSlot_generation fun hvalue ↦ harena.occupied_le hslot hvalue
    by_cases hvalue : slot.value.isSome
    · exact (hmoved.1 hvalue).2.1
    · rw [hmoved.2 hvalue]
      exact harena.generation_le index slot hslot
  · have hvacant : arena.clear.slots.countP (fun slot ↦ slot.value.isSome) = 0 := by
      rw [List.countP_eq_zero, clear_slots]
      intro cleared hcleared
      obtain ⟨slot, -, rfl⟩ := List.mem_map.mp hcleared
      simp [clearedSlot_value]
    rw [hvacant]
    rfl

/-! ### The decoder accepts exactly the well formed arenas -/

theorem checkSlot_eq_ok_iff (free : Finset ℕ) (index len count : ℕ) (slot : Slot T) :
    checkSlot free index len slot = .ok count ↔
      SlotCoherent free index slot ∧ count = len + (if slot.value.isSome then 1 else 0) := by
  have hcoherent : SlotCoherent free index slot ↔ slot.generation ≠ 0 ∧
      (slot.value.isSome → slot.generation ≠ retiredGeneration ∧ index ∉ free) ∧
      (slot.value = none → (index ∈ free ↔ slot.generation ≠ retiredGeneration)) :=
    ⟨fun h ↦ ⟨Nat.one_le_iff_ne_zero.mp h.first_le, h.occupied, h.vacant⟩,
      fun h ↦ ⟨Nat.one_le_iff_ne_zero.mpr h.1, h.2.1, h.2.2⟩⟩
  rw [hcoherent]
  unfold checkSlot
  cases hvalue : slot.value <;> by_cases hmem : index ∈ free <;>
    by_cases hretired : slot.generation = retiredGeneration <;>
    by_cases hzero : slot.generation = 0 <;> simp_all [eq_comm]

/-- The decoder's loop accepts exactly the slots that are all coherent, and counts the occupied
ones. -/
theorem checkSlots_eq_ok_iff (free : Finset ℕ) (index len count : ℕ) (slots : List (Slot T)) :
    checkSlots free index len slots = .ok count ↔
      (∀ (offset : ℕ) (slot : Slot T), slots[offset]? = some slot →
        SlotCoherent free (index + offset) slot) ∧
      count = len + slots.countP fun slot ↦ slot.value.isSome := by
  induction slots generalizing index len with
  | nil => simp [checkSlots, eq_comm]
  | cons slot rest ih =>
    have hsplit : (∀ (offset : ℕ) (found : Slot T), (slot :: rest)[offset]? = some found →
        SlotCoherent free (index + offset) found) ↔ SlotCoherent free index slot ∧
          ∀ (offset : ℕ) (found : Slot T), rest[offset]? = some found →
            SlotCoherent free (index + 1 + offset) found := by
      constructor
      · intro hall
        refine ⟨hall 0 slot rfl, fun offset found hfound ↦ ?_⟩
        have hnext := hall (offset + 1) found hfound
        rwa [show index + 1 + offset = index + (offset + 1) by omega]
      · rintro ⟨hhead, hrest⟩ offset found hfound
        cases offset with
        | zero =>
          rw [List.getElem?_cons_zero, Option.some.injEq] at hfound
          exact hfound ▸ hhead
        | succ offset =>
          have hnext := hrest offset found hfound
          rwa [show index + 1 + offset = index + (offset + 1) by omega] at hnext
    rw [hsplit, checkSlots, List.countP_cons]
    cases hcheck : checkSlot free index len slot with
    | error defect =>
      have hnot : ¬ SlotCoherent free index slot := by
        intro hcoherent
        have hok := (checkSlot_eq_ok_iff free index len _ slot).mpr ⟨hcoherent, rfl⟩
        rw [hcheck] at hok
        cases hok
      simp [hnot]
    | ok middle =>
      obtain ⟨hcoherent, rfl⟩ := (checkSlot_eq_ok_iff free index len middle slot).mp hcheck
      simp only [ih, hcoherent, true_and]
      refine and_congr_right fun _ ↦ ?_
      constructor <;> intro hcount <;> omega

theorem nextBack_any_iff (free : Finset ℕ) (bound : ℕ) :
    (nextBack free).any (bound ≤ ·) = true ↔ ∃ index ∈ free, bound ≤ index := by
  unfold nextBack
  split_ifs with hnonempty
  · simp only [Option.any_some, decide_eq_true_eq]
    exact ⟨fun hle ↦ ⟨_, Finset.max'_mem free hnonempty, hle⟩,
      fun ⟨index, hmem, hle⟩ ↦ le_trans hle (Finset.le_max' free index hmem)⟩
  · rw [Finset.not_nonempty_iff_eq_empty.mp hnonempty]
    simp

/-- The decoder accepts a representation whose generations are `u32` exactly when it is that of a
well formed arena, and returns that arena. -/
theorem tryFrom_eq_ok_iff (repr : ArenaRepr T) (arena : GenerationalArena T)
    (hwidth : ∀ slot ∈ repr.slots, slot.generation ≤ u32Max) :
    tryFrom repr = .ok arena ↔ arena.toRepr = repr ∧ arena.WellFormed := by
  have hcheck := checkSlots_eq_ok_iff repr.free 0 0
    (repr.slots.countP fun slot ↦ slot.value.isSome) repr.slots
  simp only [Nat.zero_add, and_true] at hcheck
  constructor
  · intro hok
    unfold tryFrom at hok
    split_ifs at hok with hcount hrange
    split at hok
    next => cases hok
    next len hlen =>
      obtain ⟨hcoherent, hcounted⟩ := (checkSlots_eq_ok_iff _ _ _ _ _).mp hlen
      rw [Except.ok.injEq] at hok
      subst hok
      rw [nextBack_any_iff] at hrange
      refine ⟨rfl, by simpa using hcount, fun index hmem ↦ ?_, ?_, ?_, ?_⟩
      · by_contra hle
        exact hrange ⟨index, hmem, by simpa using hle⟩
      · simpa using hcoherent
      · exact fun index slot hslot ↦ hwidth slot (List.mem_of_getElem? hslot)
      · simpa using hcounted
  · rintro ⟨rfl, harena⟩
    have hrange : ¬ (nextBack arena.toRepr.free).any (arena.toRepr.slots.length ≤ ·) = true := by
      rw [nextBack_any_iff]
      rintro ⟨index, hmem, hle⟩
      exact absurd (harena.free_lt index hmem) (not_lt.mpr hle)
    have hcount : ¬ u32Max < arena.toRepr.slots.length := not_lt.mpr harena.slots_le
    unfold tryFrom
    rw [if_neg hcount, if_neg hrange, hcheck.mpr harena.coherent]
    simp only [toRepr, ← harena.len_eq]

theorem tryFrom_toRepr (harena : arena.WellFormed) : tryFrom arena.toRepr = .ok arena := by
  refine (tryFrom_eq_ok_iff _ _ fun slot hslot ↦ ?_).mpr ⟨rfl, harena⟩
  obtain ⟨index, hindex⟩ := List.mem_iff_getElem?.mp hslot
  exact harena.generation_le index slot hindex

/-! ### Runs and the ledger of ids -/

/-- An operation of a run. `reload` serializes the arena and goes on with what decodes. -/
inductive Op (T : Type*)
  | insert (value : T)
  | remove (id : EntityId)
  | clear
  | reload

/-- An arena with the ids it issued, oldest first, and those that were removed or cleared. -/
structure Ledger (T : Type*) where
  arena : GenerationalArena T
  issued : List EntityId
  dead : List EntityId

/-- The ledger of the empty arena. -/
def Ledger.start : Ledger T := ⟨new, [], []⟩

/-- One operation on the arena, with its ids entered in the ledger. `none` is a panic of `insert`
or a decoder that refuses the serialized form. -/
def Ledger.step (ledger : Ledger T) : Op T → Option (Ledger T)
  | .insert value =>
    (ledger.arena.insert value).map fun (id, arena) ↦
      ⟨arena, ledger.issued ++ [id], ledger.dead⟩
  | .remove id =>
    let (value, arena) := ledger.arena.remove id
    some ⟨arena, ledger.issued, if value.isSome then ledger.dead ++ [id] else ledger.dead⟩
  | .clear => some ⟨ledger.arena.clear, ledger.issued, ledger.dead ++ ledger.arena.ids⟩
  | .reload =>
    match tryFrom ledger.arena.toRepr with
    | .ok arena => some { ledger with arena }
    | .error _ => none

/-- The arena issued this id and has not moved past it unless it died: the id lies at most at the
generation of its slot, and at it only while the slot is occupied. -/
def Spent (arena : GenerationalArena T) (id : EntityId) : Prop :=
  ∃ slot, arena.slots[id.index]? = some slot ∧ (id.generation < slot.generation ∨
    id.generation = slot.generation ∧ slot.value.isSome)

def Dead (arena : GenerationalArena T) (id : EntityId) : Prop :=
  ∃ slot, arena.slots[id.index]? = some slot ∧ id.generation < slot.generation

theorem Evolves.spent {before after : GenerationalArena T} (hevolves : Evolves before after)
    (hspent : before.Spent id) : after.Spent id := by
  obtain ⟨slot, hslot, hbelow⟩ := hspent
  obtain ⟨moved, hmoved, hadvances⟩ := hevolves id.index slot hslot
  refine ⟨moved, hmoved, ?_⟩
  rcases hbelow with hlt | ⟨heq, hvalue⟩ <;> rcases hadvances with hgrow | ⟨hkeep, hstays⟩
  · exact Or.inl (lt_trans hlt hgrow)
  · exact Or.inl (hkeep ▸ hlt)
  · exact Or.inl (heq ▸ hgrow)
  · exact Or.inr ⟨heq.trans hkeep, hstays hvalue⟩

theorem Evolves.dead {before after : GenerationalArena T} (hevolves : Evolves before after)
    (hdead : before.Dead id) : after.Dead id := by
  obtain ⟨slot, hslot, hlt⟩ := hdead
  obtain ⟨moved, hmoved, hgrow | ⟨hkeep, -⟩⟩ := hevolves id.index slot hslot
  · exact ⟨moved, hmoved, lt_trans hlt hgrow⟩
  · exact ⟨moved, hmoved, hkeep ▸ hlt⟩

theorem Dead.get_eq_none (hdead : arena.Dead id) : arena.get id = none := by
  obtain ⟨slot, hslot, hlt⟩ := hdead
  unfold get
  simp only [hslot, if_neg (ne_of_gt hlt)]

theorem Dead.remove_eq_none (hdead : arena.Dead id) : (arena.remove id).1 = none := by
  obtain ⟨slot, hslot, hlt⟩ := hdead
  unfold remove
  simp only [hslot, if_pos (ne_of_gt hlt)]

theorem Spent.ne_insert (harena : arena.WellFormed)
    (hinsert : arena.insert value = some (id, next)) (hspent : arena.Spent other) : other ≠ id := by
  rintro rfl
  obtain ⟨slot, hslot, hbelow⟩ := hspent
  obtain ⟨reused, hreused, hvacant, -, -, hgeneration, -⟩ | ⟨-, -, rfl, -⟩ :=
    insert_cases harena hinsert
  · rw [hslot, Option.some.injEq] at hreused
    subst hreused
    rcases hbelow with hlt | ⟨-, hvalue⟩
    · omega
    · rw [hvacant] at hvalue
      simp at hvalue
  · simp at hslot

theorem mem_iterFrom_ids (index : ℕ) (slots : List (Slot T)) (id : EntityId)
    (hmem : id ∈ (iterFrom index slots).map Prod.fst) :
    ∃ (offset : ℕ) (slot : Slot T), slots[offset]? = some slot ∧ slot.value.isSome ∧
      id = ⟨index + offset, slot.generation⟩ := by
  induction slots generalizing index with
  | nil => simp [iterFrom] at hmem
  | cons slot rest ih =>
    have hrest (hlater : id ∈ (iterFrom (index + 1) rest).map Prod.fst) :
        ∃ (offset : ℕ) (found : Slot T), (slot :: rest)[offset]? = some found ∧
          found.value.isSome ∧ id = ⟨index + offset, found.generation⟩ := by
      obtain ⟨offset, found, hfound, hvalue, rfl⟩ := ih (index + 1) hlater
      exact ⟨offset + 1, found, hfound, hvalue, by congr 1; omega⟩
    unfold iterFrom at hmem
    split at hmem
    next value hvalue =>
      rcases List.mem_cons.mp hmem with rfl | hlater
      · exact ⟨0, slot, rfl, by rw [hvalue]; rfl, rfl⟩
      · exact hrest hlater
    next => exact hrest hmem

theorem dead_clear (harena : arena.WellFormed) (hlive : id ∈ arena.ids) : arena.clear.Dead id := by
  obtain ⟨offset, slot, hslot, hvalue, rfl⟩ := mem_iterFrom_ids 0 arena.slots id hlive
  have hmoved := clearedSlot_generation fun hvalue ↦ harena.occupied_le hslot hvalue
  refine ⟨clearedSlot slot, ?_, (hmoved.1 hvalue).1⟩
  simp only [Nat.zero_add, clear_slots, List.getElem?_map, hslot, Option.map_some]

/-- The invariant of a run: the arena is well formed, the issued ids are distinct and spent, and
the removed and cleared ones are dead. -/
structure Ledger.Accounted (ledger : Ledger T) : Prop where
  wellFormed : ledger.arena.WellFormed
  nodup : ledger.issued.Nodup
  spent : ∀ id ∈ ledger.issued, ledger.arena.Spent id
  dead : ∀ id ∈ ledger.dead, ledger.arena.Dead id

theorem Ledger.accounted_start : (Ledger.start : Ledger T).Accounted where
  wellFormed := wellFormed_new
  nodup := List.nodup_nil
  spent := by simp [Ledger.start]
  dead := by simp [Ledger.start]

variable {ledger : Ledger T}

theorem Ledger.evolves_step {next : Ledger T} {op : Op T} (harena : ledger.arena.WellFormed)
    (hstep : ledger.step op = some next) : Evolves ledger.arena next.arena := by
  cases op with
  | insert value =>
    simp only [Ledger.step, Option.map_eq_some_iff, Prod.exists] at hstep
    obtain ⟨id, arena, hinsert, rfl⟩ := hstep
    exact evolves_insert harena hinsert
  | remove id =>
    simp only [Ledger.step, Option.some.injEq] at hstep
    subst hstep
    exact evolves_remove harena id
  | clear =>
    simp only [Ledger.step, Option.some.injEq] at hstep
    subst hstep
    exact evolves_clear harena
  | reload =>
    simp only [Ledger.step, tryFrom_toRepr harena, Option.some.injEq] at hstep
    exact hstep ▸ Evolves.refl ledger.arena

theorem Ledger.accounted_step {next : Ledger T} {op : Op T} (hledger : ledger.Accounted)
    (hstep : ledger.step op = some next) : next.Accounted := by
  have harena := hledger.wellFormed
  have hevolves := Ledger.evolves_step harena hstep
  have hspent (id : EntityId) (hid : id ∈ ledger.issued) : next.arena.Spent id :=
    hevolves.spent (hledger.spent id hid)
  have hdead (id : EntityId) (hid : id ∈ ledger.dead) : next.arena.Dead id :=
    hevolves.dead (hledger.dead id hid)
  cases op with
  | insert value =>
    simp only [Ledger.step, Option.map_eq_some_iff, Prod.exists] at hstep
    obtain ⟨id, arena, hinsert, rfl⟩ := hstep
    refine ⟨wellFormed_insert harena hinsert, ?_, fun other hother ↦ ?_, hdead⟩
    · refine List.nodup_append.mpr ⟨hledger.nodup, List.nodup_singleton id, ?_⟩
      intro other hother fresh hfresh
      rw [List.mem_singleton] at hfresh
      exact hfresh ▸ (hledger.spent other hother).ne_insert harena hinsert
    · rcases List.mem_append.mp hother with hold | hnew
      · exact hspent other hold
      · rw [List.mem_singleton] at hnew
        subst hnew
        exact ⟨_, getElem?_insert harena hinsert, Or.inr ⟨rfl, rfl⟩⟩
  | remove id =>
    simp only [Ledger.step, Option.some.injEq] at hstep
    subst hstep
    refine ⟨wellFormed_remove harena id, hledger.nodup, hspent, fun other hother ↦ ?_⟩
    simp only at hother
    split_ifs at hother with hremoved
    · rcases List.mem_append.mp hother with hold | hnew
      · exact hdead other hold
      · rw [List.mem_singleton] at hnew
        subst hnew
        exact generation_lt_remove harena hremoved
    · exact hdead other hother
  | clear =>
    simp only [Ledger.step, Option.some.injEq] at hstep
    subst hstep
    refine ⟨wellFormed_clear harena, hledger.nodup, hspent, fun other hother ↦ ?_⟩
    rcases List.mem_append.mp hother with hold | hnew
    · exact hdead other hold
    · exact dead_clear harena hnew
  | reload =>
    simp only [Ledger.step, tryFrom_toRepr harena, Option.some.injEq] at hstep
    exact hstep ▸ hledger

theorem Ledger.dead_run {final : Ledger T} {ops : List (Op T)} (hledger : ledger.Accounted)
    (hrun : run Ledger.step ledger ops = some final) (hdead : ledger.arena.Dead id) :
    final.arena.Dead id := by
  have hstep : ∀ (state : Ledger T) op next, state.Accounted ∧ state.arena.Dead id →
      Ledger.step state op = some next → next.Accounted ∧ next.arena.Dead id := by
    rintro state op next ⟨hstate, hid⟩ hstep
    exact ⟨Ledger.accounted_step hstate hstep,
      (Ledger.evolves_step hstate.wellFormed hstep).dead hid⟩
  exact (run_preserves hstep ⟨hledger, hdead⟩ hrun).2

/-- The arena over whole runs. Assumes: a run from the empty arena. The counter is the number of
occupied slots, the free set holds exactly the vacant slots that are not retired, no id was issued
twice, an id that was removed or cleared resolves neither now nor after any later operations, and
the serialized form decodes to an arena equal to this one, on which every later run agrees. -/
theorem run_ids_unique_and_reloadable (ops : List (Op T)) (ledger : Ledger T)
    (hrun : run Ledger.step Ledger.start ops = some ledger) :
    ledger.arena.len = (ledger.arena.slots.countP fun slot ↦ slot.value.isSome) ∧
      (∀ index, index ∈ ledger.arena.free ↔ ∃ slot, ledger.arena.slots[index]? = some slot ∧
        slot.value = none ∧ slot.generation ≠ retiredGeneration) ∧ ledger.issued.Nodup ∧
      (∀ later final, run Ledger.step ledger later = some final → ∀ id ∈ ledger.dead,
        final.arena.get id = none ∧ (final.arena.remove id).1 = none) ∧
      ∃ decoded, tryFrom ledger.arena.toRepr = .ok decoded ∧ decoded = ledger.arena ∧
        ∀ later, run Ledger.step { ledger with arena := decoded } later =
          run Ledger.step ledger later := by
  have hledger : ledger.Accounted :=
    run_preserves (fun _ _ _ hstate hstep ↦ Ledger.accounted_step hstate hstep)
      Ledger.accounted_start hrun
  refine ⟨hledger.wellFormed.len_eq, hledger.wellFormed.mem_free_iff, hledger.nodup, ?_,
    ledger.arena, tryFrom_toRepr hledger.wellFormed, rfl, fun _ ↦ rfl⟩
  intro later final hlater id hid
  have hdead := Ledger.dead_run hledger hlater (hledger.dead id hid)
  exact ⟨hdead.get_eq_none, hdead.remove_eq_none⟩

/-- A run that issues, removes, reissues, reloads and clears. -/
theorem run_ids_unique_and_reloadable_reuse : ∃ ledger : Ledger ℕ, run Ledger.step Ledger.start
        [.insert 7, .insert 8, .remove ⟨0, 1⟩, .insert 9, .reload, .clear] = some ledger ∧
      ledger.issued = [⟨0, 1⟩, ⟨1, 1⟩, ⟨0, 2⟩] ∧ ledger.dead = [⟨0, 1⟩, ⟨0, 2⟩, ⟨1, 1⟩] ∧
      ledger.issued.Nodup := by
  have hrun : run Ledger.step (Ledger.start : Ledger ℕ)
      [.insert 7, .insert 8, .remove ⟨0, 1⟩, .insert 9, .reload, .clear] =
        some ⟨⟨[⟨3, none⟩, ⟨2, none⟩], {0, 1}, 0⟩, [⟨0, 1⟩, ⟨1, 1⟩, ⟨0, 2⟩],
          [⟨0, 1⟩, ⟨0, 2⟩, ⟨1, 1⟩]⟩ := rfl
  exact ⟨_, hrun, rfl, rfl, (run_ids_unique_and_reloadable _ _ hrun).2.2.1⟩

end GenerationalArena

end Crpg.Core
