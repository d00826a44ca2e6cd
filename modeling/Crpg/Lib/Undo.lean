import Mathlib.Data.List.Basic
import Mathlib.Tactic.Common

/-!
# Undo stacks

A `Track` is what undo and redo are about: the states before the present one that can be returned
to, oldest first, and the undone states, the next one last. Its moves invert each other
(`redo_of_undo`, `undo_of_redo`).

An editor stores no states but one entry for each step, from which a state is restored. `Linked`
says that a stack of entries joins a stack of states to the present one, each entry made of the two
states it stands between.
-/

set_option autoImplicit false

namespace Crpg.Lib

variable {σ ε : Type*}

/-- The states that undo and redo move between. -/
structure Track (σ : Type*) where
  past : List σ
  present : σ
  future : List σ

namespace Track

/-- A new state, of which `kept` steps back are kept. -/
def commit (track : Track σ) (next : σ) (kept : ℕ) : Track σ where
  past := (track.past ++ [track.present]).drop (track.past.length + 1 - kept)
  present := next
  future := []

/-- One step back. -/
def undo (track : Track σ) : Option (Track σ) :=
  track.past.getLast?.map fun before ↦
    ⟨track.past.dropLast, before, track.future ++ [track.present]⟩

/-- One step forward. -/
def redo (track : Track σ) : Option (Track σ) :=
  track.future.getLast?.map fun after ↦
    ⟨track.past ++ [track.present], after, track.future.dropLast⟩

variable {track next : Track σ}

theorem undo_eq_some (hundo : track.undo = some next) :
    track.past = next.past ++ [next.present] ∧ next.future = track.future ++ [track.present] := by
  obtain ⟨before, hbefore, rfl⟩ := Option.map_eq_some_iff.mp hundo
  exact ⟨(List.dropLast_append_getLast? before hbefore).symm, rfl⟩

theorem redo_eq_some (hredo : track.redo = some next) :
    next.past = track.past ++ [track.present] ∧ track.future = next.future ++ [next.present] := by
  obtain ⟨after, hafter, rfl⟩ := Option.map_eq_some_iff.mp hredo
  exact ⟨rfl, (List.dropLast_append_getLast? after hafter).symm⟩

theorem redo_of_undo (hundo : track.undo = some next) : next.redo = some track := by
  obtain ⟨hpast, hfuture⟩ := undo_eq_some hundo
  cases track
  simp only [redo, hfuture, List.getLast?_concat, List.dropLast_concat, Option.map_some] at hpast ⊢
  rw [hpast]

theorem undo_of_redo (hredo : track.redo = some next) : next.undo = some track := by
  obtain ⟨hpast, hfuture⟩ := redo_eq_some hredo
  cases track
  simp only [undo, hpast, List.getLast?_concat, List.dropLast_concat, Option.map_some] at hfuture ⊢
  rw [hfuture]

end Track

inductive Linked (join : σ → σ → ε) : List ε → List σ → σ → Prop
  | nil (present : σ) : Linked join [] [] present
  | snoc {entries : List ε} {states : List σ} {nearest : σ} (present : σ)
      (hlinked : Linked join entries states nearest) :
      Linked join (entries ++ [join nearest present]) (states ++ [nearest]) present

namespace Linked

variable {join : σ → σ → ε} {entries : List ε} {states : List σ} {present : σ}

section

variable (hlinked : Linked join entries states present)
include hlinked

theorem length_eq : entries.length = states.length := by
  induction hlinked with
  | nil => rfl
  | snoc _ _ ih => rw [List.length_append, List.length_append, ih, List.length_singleton,
      List.length_singleton]

theorem drop (count : ℕ) : Linked join (entries.drop count) (states.drop count) present := by
  induction hlinked with
  | nil =>
    rw [List.drop_nil, List.drop_nil]
    exact .nil _
  | @snoc entries states nearest present hlinked ih =>
    have hlength := hlinked.length_eq
    by_cases hcount : count ≤ entries.length
    · rw [List.drop_append_of_le_length hcount,
        List.drop_append_of_le_length (hlength ▸ hcount)]
      exact ih.snoc present
    · rw [List.drop_eq_nil_of_le (by rw [List.length_append, List.length_singleton]; omega),
        List.drop_eq_nil_of_le (by rw [List.length_append, List.length_singleton]; omega)]
      exact .nil present

theorem getLast? {entry : ε} (hentry : entries.getLast? = some entry) :
    ∃ nearest, states.getLast? = some nearest ∧
      entry = join nearest present ∧ Linked join entries.dropLast states.dropLast nearest := by
  cases hlinked with
  | nil => cases hentry
  | @snoc entries states nearest present hlinked =>
    rw [List.getLast?_concat, Option.some.injEq] at hentry
    refine ⟨nearest, List.getLast?_concat, hentry.symm, ?_⟩
    rw [List.dropLast_concat, List.dropLast_concat]
    exact hlinked

theorem getLast?_eq_none_iff : entries.getLast? = none ↔ states.getLast? = none := by
  rw [List.getLast?_eq_none_iff, List.getLast?_eq_none_iff, ← List.length_eq_zero_iff,
    ← List.length_eq_zero_iff, hlinked.length_eq]

end

end Linked

end Crpg.Lib
