import Crpg.Sim.Timeline

/-!
# The map inside a timeline

The container of `crpg-sim/src/timeline.rs` is keyed by initiative and entity, so nothing in it
forbids two entries of one entity. Here the operations act on the bare map. Whatever sequence of
them built it, the map is the inside of a `Timeline`, and each operation is the one of `Timeline`.
-/

set_option autoImplicit false

namespace Crpg.Sim

open Crpg.Core Crpg.Lib

/-- The map inside a timeline, whatever it holds. -/
abbrev TimelineEntries := BTreeMap TurnKey Unit

namespace TimelineEntries

/-- Drops the first entry of an entity, and reports whether there was one. -/
def remove (entries : TimelineEntries) (id : EntityId) : Bool × TimelineEntries :=
  match entries.keys.find? fun slot ↦ slot.entity = id with
  | some slot => (true, entries.erase slot)
  | none => (false, entries)

def insert (entries : TimelineEntries) (key : ℤ) (id : EntityId) : TimelineEntries :=
  BTreeMap.insert (remove entries id).2 (toLex (key, id)) ()

/-- `From<Vec<(InitiativeKey, EntityId)>>`. -/
def ofPairs (pairs : List TurnKey) : TimelineEntries :=
  pairs.foldl (fun entries slot ↦ insert entries slot.key slot.entity) BTreeMap.empty

def serialize (entries : TimelineEntries) : List TurnKey := entries.keys

def repeated (seen : List EntityId) : List TurnKey → Option EntityId
  | [] => none
  | slot :: rest =>
    if slot.entity ∈ seen then some slot.entity else repeated (slot.entity :: seen) rest

/-- The decoder: it refuses a repeated entity and binds the pairs without `insert`. -/
def deserialize (pairs : List TurnKey) : Except EntityId TimelineEntries :=
  match repeated [] pairs with
  | some id => .error id
  | none => .ok (BTreeMap.ofList (pairs.map fun slot ↦ (slot, ())))

/-- The maps the operations build. -/
inductive Reached : TimelineEntries → Prop
  | new : Reached BTreeMap.empty
  | insert {entries : TimelineEntries} (key : ℤ) (id : EntityId) (hreached : Reached entries) :
      Reached (insert entries key id)
  | remove {entries : TimelineEntries} (id : EntityId) (hreached : Reached entries) :
      Reached (remove entries id).2
  | ofPairs (pairs : List TurnKey) : Reached (ofPairs pairs)
  | deserialize {pairs : List TurnKey} {entries : TimelineEntries}
      (hdecoded : deserialize pairs = .ok entries) : Reached entries

/-! ### Operations of a timeline -/

theorem remove_eq (timeline : Timeline) (id : EntityId) :
    remove timeline.entries id = (timeline.contains id, (timeline.remove id).entries) := by
  cases hfind : timeline.find id with
  | none =>
    have hcontains : timeline.contains id = false := by
      rw [Bool.eq_false_iff, ne_eq, Timeline.contains_iff]
      intro ⟨slot, hslot⟩
      rw [Timeline.find_eq_some_iff.mpr hslot] at hfind
      cases hfind
    rw [Timeline.remove_of_not_contains (Bool.eq_false_iff.mp hcontains), hcontains, remove,
      show timeline.entries.keys.find? _ = none from hfind]
  | some slot =>
    have hcontains : timeline.contains id = true :=
      Timeline.contains_iff.mpr ⟨slot, Timeline.find_eq_some_iff.mp hfind⟩
    rw [remove, show timeline.entries.keys.find? _ = some slot from hfind, hcontains]
    simp only [Timeline.remove, hfind]

theorem insert_eq (timeline : Timeline) (key : ℤ) (id : EntityId) :
    insert timeline.entries key id = (timeline.insert key id).entries := by
  rw [insert, remove_eq]
  rfl

def lastOf (pairs : List TurnKey) (id : EntityId) : Option TurnKey :=
  pairs.reverse.find? fun slot ↦ slot.entity = id

theorem exists_ofPairs (pairs : List TurnKey) : ∃ timeline : Timeline,
    timeline.entries = ofPairs pairs ∧
      ∀ slot, slot ∈ timeline ↔ lastOf pairs slot.entity = some slot := by
  induction pairs using List.reverseRecOn with
  | nil =>
    refine ⟨.new, rfl, fun slot ↦ iff_of_false ?_ (fun h ↦ nomatch h)⟩
    exact List.not_mem_nil
  | append_singleton pairs pair ih =>
    obtain ⟨timeline, hentries, hmem⟩ := ih
    refine ⟨timeline.insert pair.key pair.entity, ?_, fun slot ↦ ?_⟩
    · rw [← insert_eq, hentries, ofPairs, ofPairs, List.foldl_append]
      rfl
    · have hlast : lastOf (pairs ++ [pair]) slot.entity =
          if pair.entity = slot.entity then some pair else lastOf pairs slot.entity := by
        rw [lastOf, List.reverse_append, List.reverse_singleton, List.singleton_append,
          List.find?_cons]
        by_cases hentity : pair.entity = slot.entity <;> simp [hentity, lastOf]
      rw [Timeline.mem_insert, hmem, hlast]
      by_cases hentity : pair.entity = slot.entity
      · rw [if_pos hentity, or_iff_left fun h ↦ h.2 hentity.symm, Option.some.injEq, eq_comm]
        rfl
      · have hne : slot ≠ toLex (pair.key, pair.entity) := by
          rintro rfl
          exact hentity rfl
        rw [if_neg hentity, or_iff_right hne, and_iff_left (Ne.symm hentity)]

/-! ### The decoder -/

theorem repeated_eq_none_iff {seen : List EntityId} {pairs : List TurnKey} :
    repeated seen pairs = none ↔
      (∀ slot ∈ pairs, slot.entity ∉ seen) ∧ (pairs.map TurnKey.entity).Nodup := by
  induction pairs generalizing seen with
  | nil => simp [repeated]
  | cons slot rest ih =>
    rw [repeated, List.forall_mem_cons, List.map_cons, List.nodup_cons]
    split_ifs with hseen
    · exact ⟨fun h ↦ (nomatch h), fun h ↦ absurd hseen h.1.1⟩
    · simp only [ih, List.mem_cons, not_or, List.mem_map, not_exists, not_and]
      constructor
      · intro ⟨hrest, hnodup⟩
        exact ⟨⟨hseen, fun other hother ↦ (hrest other hother).2⟩,
          fun other hother ↦ (hrest other hother).1, hnodup⟩
      · intro ⟨⟨_, hrest⟩, hfresh, hnodup⟩
        exact ⟨fun other hother ↦ ⟨hfresh other hother, hrest other hother⟩, hnodup⟩

theorem exists_deserialize {pairs : List TurnKey} (hnodup : (pairs.map TurnKey.entity).Nodup) :
    ∃ timeline : Timeline, deserialize pairs = .ok timeline.entries ∧
      ∀ slot, slot ∈ timeline ↔ slot ∈ pairs := by
  have hmem (slot : TurnKey) :
      slot ∈ (BTreeMap.ofList (pairs.map fun slot ↦ (slot, ()))).keys ↔ slot ∈ pairs := by
    rw [BTreeMap.mem_keys_ofList_iff, List.map_map]
    simp
  refine ⟨⟨BTreeMap.ofList (pairs.map fun slot ↦ (slot, ())), ?_⟩, ?_, hmem⟩
  · rw [List.nodup_map_iff_inj_on (BTreeMap.nodup_keys _)]
    intro first hfirst second hsecond hentity
    exact List.inj_on_of_nodup_map hnodup ((hmem first).mp hfirst) ((hmem second).mp hsecond)
      hentity
  · rw [deserialize, repeated_eq_none_iff.mpr ⟨fun _ _ ↦ List.not_mem_nil, hnodup⟩]

theorem nodup_of_deserialize {pairs : List TurnKey} {entries : TimelineEntries}
    (hdecoded : deserialize pairs = .ok entries) : (pairs.map TurnKey.entity).Nodup := by
  unfold deserialize at hdecoded
  split at hdecoded
  · cases hdecoded
  · next hnone => exact (repeated_eq_none_iff.mp hnone).2

/-- Whatever was done, the map is the inside of a timeline. -/
theorem Reached.timeline {entries : TimelineEntries} (hreached : Reached entries) :
    ∃ timeline : Timeline, timeline.entries = entries := by
  induction hreached with
  | new => exact ⟨.new, rfl⟩
  | insert key id hreached ih =>
    obtain ⟨timeline, rfl⟩ := ih
    exact ⟨timeline.insert key id, (insert_eq timeline key id).symm⟩
  | remove id hreached ih =>
    obtain ⟨timeline, rfl⟩ := ih
    exact ⟨timeline.remove id, by rw [remove_eq]⟩
  | ofPairs pairs =>
    obtain ⟨timeline, hentries, -⟩ := exists_ofPairs pairs
    exact ⟨timeline, hentries⟩
  | deserialize hdecoded =>
    obtain ⟨timeline, htimeline, -⟩ := exists_deserialize (nodup_of_deserialize hdecoded)
    rw [hdecoded, Except.ok.injEq] at htimeline
    exact ⟨timeline, htimeline.symm⟩

/-- In every reached timeline an entity has at most one entry and the entries ascend; `insert` and
`remove` change the entry of their entity only; and a serialized timeline decodes to itself. The
decoder accepts the lists without a repeated entity, and `From<Vec>` keeps the pair listed last. -/
theorem timeline_keeps_one_entry : (∀ entries, Reached entries →
      (entries.keys.map TurnKey.entity).Nodup ∧ entries.keys.Pairwise (· < ·) ∧
      (∀ key id slot, slot ∈ (insert entries key id).keys ↔
        slot = toLex (key, id) ∨ (slot ∈ entries.keys ∧ slot.entity ≠ id)) ∧
      (∀ id, ((remove entries id).1 = true ↔ ∃ slot ∈ entries.keys, slot.entity = id) ∧
        ∀ slot, slot ∈ (remove entries id).2.keys ↔ slot ∈ entries.keys ∧ slot.entity ≠ id) ∧
      deserialize (serialize entries) = .ok entries) ∧
    (∀ pairs, ((∃ entries, deserialize pairs = .ok entries) ↔ (pairs.map TurnKey.entity).Nodup) ∧
      ∀ entries, deserialize pairs = .ok entries → ∀ slot, slot ∈ entries.keys ↔ slot ∈ pairs) ∧
    ∀ pairs slot, slot ∈ (ofPairs pairs).keys ↔ lastOf pairs slot.entity = some slot := by
  refine ⟨fun entries hreached ↦ ?_, fun pairs ↦ ⟨⟨?_, fun hnodup ↦ ?_⟩, ?_⟩, fun pairs slot ↦ ?_⟩
  · obtain ⟨timeline, rfl⟩ := hreached.timeline
    refine ⟨timeline.unique, timeline.entries.pairwise_keys, fun key id slot ↦ ?_, fun id ↦ ?_, ?_⟩
    · rw [insert_eq]
      exact Timeline.mem_insert
    · rw [remove_eq]
      exact ⟨Timeline.contains_iff, fun slot ↦ Timeline.mem_remove⟩
    · obtain ⟨decoded, hdecoded, hmem⟩ := exists_deserialize timeline.unique
      rw [serialize, hdecoded, Timeline.ext hmem]
  · intro ⟨entries, hdecoded⟩
    exact nodup_of_deserialize hdecoded
  · obtain ⟨timeline, hdecoded, -⟩ := exists_deserialize hnodup
    exact ⟨timeline.entries, hdecoded⟩
  · intro entries hdecoded
    obtain ⟨timeline, htimeline, hmem⟩ := exists_deserialize (nodup_of_deserialize hdecoded)
    rw [hdecoded, Except.ok.injEq] at htimeline
    rw [htimeline]
    exact hmem
  · obtain ⟨timeline, hentries, hmem⟩ := exists_ofPairs pairs
    rw [← hentries]
    exact hmem slot

/-- Of three entities one is scheduled again and one is removed. -/
theorem one_entry_scheduled : ∃ entries, Reached entries ∧
    entries.keys = [toLex (1, ⟨0, 1⟩), toLex (7, ⟨2, 1⟩)] ∧
    (entries.keys.map TurnKey.entity).Nodup ∧
    deserialize (serialize entries) = .ok entries :=
  have hreached := Reached.remove ⟨1, 1⟩ (.insert 1 ⟨0, 1⟩ (.insert 7 ⟨2, 1⟩ (.insert 5 ⟨1, 1⟩
    (.insert 3 ⟨0, 1⟩ .new))))
  have hkeeps := timeline_keeps_one_entry.1 _ hreached
  ⟨_, hreached, by decide, hkeeps.1, hkeeps.2.2.2.2⟩

end TimelineEntries

end Crpg.Sim
