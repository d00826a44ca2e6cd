import Mathlib.Data.List.Cycle
import Mathlib.Logic.Relation

/-!
# Closed paths

A `ClosedPath` of a relation is a list that steps along the relation, ends where it starts and
repeats no other entry. Such a list shows that the relation has a cycle (`ClosedPath.transGen`),
which no accessible element is on (`not_transGen_of_acc`). Closing a list of distinct entries gives
a closed path wherever the list is started (`ClosedPath.of_rotated`).
-/

set_option autoImplicit false

namespace Crpg.Lib

open Relation

variable {α : Type*} {rel : α → α → Prop}

/-- A path that ends where it starts and repeats no other entry. -/
structure ClosedPath (rel : α → α → Prop) (path : List α) : Prop where
  steps : path.IsChain rel
  length : 2 ≤ path.length
  ends : path.head? = path.getLast?
  distinct : path.dropLast.Nodup

theorem transGen_of_isChain {first : α} {rest : List α} (hsteps : (first :: rest).IsChain rel) :
    ∀ later ∈ rest, TransGen rel first later := by
  induction rest generalizing first with
  | nil => exact nofun
  | cons next rest ih =>
    obtain ⟨hstep, hrest⟩ := List.isChain_cons_cons.mp hsteps
    intro later hlater
    rcases List.mem_cons.mp hlater with rfl | hlater
    · exact TransGen.single hstep
    · exact TransGen.head hstep (ih hrest later hlater)

theorem ClosedPath.transGen {path : List α} (hclosed : ClosedPath rel path) :
    ∃ entry, TransGen rel entry entry := by
  match path, hclosed with
  | [], hclosed => exact absurd hclosed.length (by simp)
  | [_], hclosed => exact absurd hclosed.length (by simp)
  | first :: next :: rest, hclosed =>
    have hends := hclosed.ends
    rw [List.getLast?_cons_cons, List.head?_cons] at hends
    exact ⟨first, transGen_of_isChain hclosed.steps first (List.mem_of_getLast? hends.symm)⟩

/-- An accessible element is on no cycle. -/
theorem not_transGen_of_acc {entry : α} (hacc : Acc rel entry) : ¬ TransGen rel entry entry := by
  have htrans : Acc (TransGen rel) entry := hacc.transGen
  clear hacc
  induction htrans with
  | intro entry _ ih => exact fun hcycle ↦ ih entry hcycle hcycle

theorem ClosedPath.of_rotated {first least : α} {rest tail : List α}
    (hsteps : (first :: (rest ++ [first])).IsChain rel) (hdistinct : (first :: rest).Nodup)
    (hrotated : (first :: rest) ~r (least :: tail)) :
    ClosedPath rel (least :: tail ++ [least]) where
  steps := by
    have hcycle : Cycle.Chain rel (first :: rest : List α) :=
      (Cycle.chain_coe_cons rel first rest).mpr hsteps
    rw [Cycle.coe_eq_coe.mpr hrotated] at hcycle
    exact (Cycle.chain_coe_cons rel least tail).mp hcycle
  length := by
    rw [List.length_append, List.length_cons, List.length_singleton]
    omega
  ends := List.getLast?_concat.symm
  distinct := by
    rw [List.dropLast_concat]
    exact hrotated.nodup_iff.mp hdistinct

end Crpg.Lib
