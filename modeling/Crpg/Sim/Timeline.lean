import Mathlib.Data.List.Nodup
import Crpg.Core.Arena
import Crpg.Lib.BTreeMap

/-!
# The timeline

`crpg-sim/src/timeline.rs`. The ordered set of entities awaiting a turn, keyed by initiative and
then by entity, with at most one entry for each entity. The source keeps that by replacing an
entity's entry on every insertion; here it is a field of the structure.

`mem_insert` and `mem_remove` say what an operation leaves, which is all later proofs use.
-/

set_option autoImplicit false

namespace Crpg.Sim

open Crpg.Core Crpg.Lib

/-- A position in the turn order: the initiative key, then the entity. -/
abbrev TurnKey := ℤ ×ₗ EntityId

def TurnKey.entity (slot : TurnKey) : EntityId := (ofLex slot).2

/-- The initiative key of a position. -/
def TurnKey.key (slot : TurnKey) : ℤ := (ofLex slot).1

/-- The ordered set of entities awaiting a turn, at most one entry per entity. -/
structure Timeline where
  entries : BTreeMap TurnKey Unit
  unique : (entries.keys.map TurnKey.entity).Nodup
deriving DecidableEq

namespace Timeline

def new : Timeline := ⟨BTreeMap.empty, List.nodup_nil⟩

/-- All entries in ascending order. -/
def iter (timeline : Timeline) : List TurnKey := timeline.entries.keys

def head? (timeline : Timeline) : Option EntityId := timeline.iter.head?.map TurnKey.entity

/-- Whether an entity holds an entry. -/
def contains (timeline : Timeline) (id : EntityId) : Bool :=
  timeline.iter.any fun slot ↦ slot.entity = id

/-- Whether nothing is scheduled. -/
def isEmpty (timeline : Timeline) : Bool := timeline.iter.isEmpty

instance : Membership TurnKey Timeline := ⟨fun timeline slot ↦ slot ∈ timeline.iter⟩

variable {timeline : Timeline} {slot : TurnKey}

theorem mem_iter : slot ∈ timeline.iter ↔ slot ∈ timeline :=
  Iff.rfl

theorem mem_iff_get? : slot ∈ timeline ↔ timeline.entries.get? slot = some () :=
  timeline.entries.mem_keys_iff.trans ⟨fun ⟨_, h⟩ ↦ h, fun h ↦ ⟨(), h⟩⟩

theorem eq_of_mem {first second : TurnKey} (hfirst : first ∈ timeline)
    (hsecond : second ∈ timeline) (heq : first.entity = second.entity) : first = second :=
  List.inj_on_of_nodup_map timeline.unique hfirst hsecond heq

/-- The first entry of an entity. -/
def find (timeline : Timeline) (id : EntityId) : Option TurnKey :=
  timeline.iter.find? fun slot ↦ slot.entity = id

variable {id : EntityId}

theorem find_eq_some_iff : timeline.find id = some slot ↔ slot ∈ timeline ∧ slot.entity = id := by
  constructor
  · intro hfind
    exact ⟨List.mem_of_find?_eq_some hfind, by simpa using List.find?_some hfind⟩
  · rintro ⟨hmem, rfl⟩
    cases hfind : timeline.find slot.entity with
    | none =>
      have := List.find?_eq_none.mp hfind slot hmem
      simp at this
    | some found =>
      have hfound : found.entity = slot.entity := by simpa using List.find?_some hfind
      rw [eq_of_mem (List.mem_of_find?_eq_some hfind) hmem hfound]

theorem keys_erase_sublist (entries : BTreeMap TurnKey Unit) (slot : TurnKey) :
    (entries.erase slot).keys.Sublist entries.keys :=
  List.filter_sublist.map Prod.fst

/-- Drops an entity's entry, if it holds one. -/
def remove (timeline : Timeline) (id : EntityId) : Timeline :=
  match timeline.find id with
  | none => timeline
  | some slot => ⟨timeline.entries.erase slot,
      timeline.unique.sublist ((keys_erase_sublist timeline.entries slot).map TurnKey.entity)⟩

theorem mem_remove : slot ∈ timeline.remove id ↔ slot ∈ timeline ∧ slot.entity ≠ id := by
  unfold remove
  split
  · next hfind =>
    refine ⟨fun hmem ↦ ⟨hmem, ?_⟩, And.left⟩
    rintro rfl
    rw [find_eq_some_iff.mpr ⟨hmem, rfl⟩] at hfind
    cases hfind
  · next found hfind =>
    obtain ⟨hfound, rfl⟩ := find_eq_some_iff.mp hfind
    rw [mem_iff_get?, mem_iff_get?, BTreeMap.get?_erase]
    split_ifs with hslot
    · simp [hslot]
    · refine ⟨fun hget ↦ ⟨hget, fun hentity ↦ hslot ?_⟩, And.left⟩
      exact eq_of_mem (mem_iff_get?.mpr hget) hfound hentity

/-- Schedules an entity, replacing any entry it already holds. -/
def insert (timeline : Timeline) (key : ℤ) (id : EntityId) : Timeline :=
  ⟨(timeline.remove id).entries.insert (toLex (key, id)) (), by
    rw [List.nodup_map_iff_inj_on (BTreeMap.nodup_keys _)]
    have hmem (slot : TurnKey) (hslot : slot ∈ ((timeline.remove id).entries.insert
        (toLex (key, id)) ()).keys) : slot = toLex (key, id) ∨ slot ∈ timeline.remove id := by
      obtain ⟨_, hget⟩ := BTreeMap.mem_keys_iff _ |>.mp hslot
      rw [BTreeMap.get?_insert] at hget
      split_ifs at hget with heq
      · exact Or.inl heq
      · exact Or.inr (mem_iff_get?.mpr hget)
    intro first hfirst second hsecond hentity
    rcases hmem first hfirst with rfl | hfirst <;> rcases hmem second hsecond with rfl | hsecond
    · rfl
    · exact absurd hentity.symm (mem_remove.mp hsecond).2
    · exact absurd hentity (mem_remove.mp hfirst).2
    · exact eq_of_mem hfirst hsecond hentity⟩

theorem mem_insert {key : ℤ} : slot ∈ timeline.insert key id ↔
      slot = toLex (key, id) ∨ (slot ∈ timeline ∧ slot.entity ≠ id) := by
  rw [mem_iff_get?, insert, BTreeMap.get?_insert, ← mem_remove, mem_iff_get?]
  split_ifs with hslot
  · simp [hslot]
  · simp [hslot]

theorem contains_iff : timeline.contains id = true ↔ ∃ slot ∈ timeline, slot.entity = id := by
  simp [contains, mem_iter]

/-- Removing an entity that holds no entry changes nothing. -/
theorem remove_of_not_contains (habsent : timeline.contains id ≠ true) :
    timeline.remove id = timeline := by
  unfold remove
  split
  · rfl
  · next slot hfind =>
    obtain ⟨hmem, hentity⟩ := find_eq_some_iff.mp hfind
    exact absurd (contains_iff.mpr ⟨slot, hmem, hentity⟩) habsent

theorem isEmpty_iff : timeline.isEmpty = true ↔ ∀ slot, slot ∉ timeline := by
  rw [isEmpty, List.isEmpty_iff, List.eq_nil_iff_forall_not_mem]
  rfl

theorem head?_eq_some_iff : timeline.head? = some id ↔
      ∃ slot ∈ timeline, slot.entity = id ∧ ∀ other ∈ timeline, slot ≤ other := by
  have hsorted := timeline.entries.pairwise_keys
  change timeline.iter.Pairwise _ at hsorted
  simp only [head?, Option.map_eq_some_iff, ← mem_iter]
  cases hiter : timeline.iter with
  | nil => simp
  | cons first rest =>
    rw [hiter, List.pairwise_cons] at hsorted
    simp only [List.head?_cons, Option.some.injEq, exists_eq_left']
    constructor
    · rintro rfl
      refine ⟨first, List.mem_cons_self .., rfl, fun other hother ↦ ?_⟩
      rcases List.mem_cons.mp hother with rfl | hother
      · exact le_rfl
      · exact (hsorted.1 other hother).le
    · rintro ⟨slot, hslot, rfl, hleast⟩
      rcases List.mem_cons.mp hslot with rfl | hrest
      · rfl
      · exact absurd (hsorted.1 slot hrest) (not_lt.mpr (hleast first (List.mem_cons_self ..)))

theorem head?_eq_none_iff : timeline.head? = none ↔ ∀ slot, slot ∉ timeline := by
  rw [head?, Option.map_eq_none_iff, List.head?_eq_none_iff, List.eq_nil_iff_forall_not_mem]
  rfl

theorem mem_of_head? (hhead : timeline.head? = some id) : ∃ slot ∈ timeline, slot.entity = id := by
  obtain ⟨slot, hslot, hentity, -⟩ := head?_eq_some_iff.mp hhead
  exact ⟨slot, hslot, hentity⟩

/-- Two timelines with the same positions are equal. -/
theorem ext {first second : Timeline} (hmem : ∀ slot, slot ∈ first ↔ slot ∈ second) :
    first = second := by
  obtain ⟨first, hfirst⟩ := first
  obtain ⟨second, hsecond⟩ := second
  have heq : first = second := BTreeMap.ext_get? fun slot ↦ by
    have := hmem slot
    rw [mem_iff_get?, mem_iff_get?] at this
    cases hget : first.get? slot with
    | some value => rw [this.mp hget]
    | none =>
      cases hother : second.get? slot with
      | none => rfl
      | some value => rw [this.mpr hother] at hget; cases hget
  subst heq
  rfl

end Timeline

end Crpg.Sim
