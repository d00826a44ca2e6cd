import Mathlib.Data.List.Pairwise
import Mathlib.Order.Bounds.Basic

/-!
# Queues in service

Slots of a linear order wait, one of them is in service, and others drop out. A step lets slots
leave; it keeps the one in service, takes the least slot left, or stops. `Served` says what a run of
such steps served: ascending slots, each once, and every slot of the opening was served, waits or
dropped out.
-/

set_option autoImplicit false

namespace Crpg.Lib

/-- A queue in service: the slots that wait with the one in service, and those that dropped out. -/
structure Service (σ : Type*) where
  waiting : Set σ
  current : Option σ
  gone : Set σ

namespace Service

variable {σ : Type*}

/-- Slots leave: the one in service, or one that dropped out. -/
structure Shrinks (before after : Service σ) : Prop where
  waiting : after.waiting ⊆ before.waiting
  gone : before.gone ⊆ after.gone
  left : ∀ slot ∈ before.waiting,
    slot ∈ after.waiting ∨ before.current = some slot ∨ slot ∈ after.gone

def Vacates (before after : Service σ) : Prop :=
  ∀ slot, before.current = some slot → slot ∉ after.waiting

variable {before after later : Service σ}

/-- Another queue with the same slots. -/
theorem Shrinks.congr (hshrinks : Shrinks before after) (hwaiting : later.waiting = after.waiting)
    (hgone : later.gone = after.gone) : Shrinks before later where
  waiting := hwaiting ▸ hshrinks.waiting
  gone := hgone ▸ hshrinks.gone
  left := by
    rw [hwaiting, hgone]
    exact hshrinks.left

theorem Vacates.congr (hvacates : Vacates before after) (hwaiting : later.waiting = after.waiting) :
    Vacates before later := by
  intro slot hcurrent
  rw [hwaiting]
  exact hvacates slot hcurrent

variable [LinearOrder σ]

inductive Step (before after : Service σ) : Option σ → Prop
  | stay (shrinks : Shrinks before after) (same : after.current = before.current) :
      Step before after none
  | stop (shrinks : Shrinks before after) (vacates : Vacates before after)
      (idle : after.current = none) : Step before after none
  | pass {slot : σ} (shrinks : Shrinks before after) (vacates : Vacates before after)
      (least : IsLeast after.waiting slot) (taken : after.current = some slot) :
      Step before after (some slot)

structure Served (opening : Set σ) (served : List σ) (state : Service σ) : Prop where
  ordered : served.Pairwise (· < ·)
  opened : ∀ slot ∈ served, slot ∈ opening
  within : state.waiting ⊆ opening
  ahead : ∀ slot ∈ state.waiting, state.current = some slot ∨ ∀ past ∈ served, past < slot
  current : ∀ slot, state.current = some slot → slot ∈ served
  covered : ∀ slot ∈ opening, slot ∈ served ∨ slot ∈ state.waiting ∨ slot ∈ state.gone

variable {opening : Set σ} {served : List σ} {next : Option σ}

theorem served_of_least {state : Service σ}
    (hleast : ∀ slot, state.current = some slot → IsLeast state.waiting slot) :
    Served state.waiting state.current.toList state := by
  cases hcurrent : state.current with
  | none =>
    refine ⟨List.Pairwise.nil, nofun, Set.Subset.rfl, fun slot _ ↦ Or.inr nofun, ?_,
      fun slot hslot ↦ Or.inr (Or.inl hslot)⟩
    intro slot hslot
    rw [hcurrent] at hslot
    cases hslot
  | some head =>
    have hhead := hleast head hcurrent
    refine ⟨List.pairwise_singleton .., ?_, Set.Subset.rfl, ?_, ?_,
      fun slot hslot ↦ Or.inr (Or.inl hslot)⟩
    · intro slot hslot
      rw [Option.toList_some, List.mem_singleton] at hslot
      exact hslot ▸ hhead.1
    · intro slot hslot
      by_cases hself : slot = head
      · exact Or.inl (hself ▸ hcurrent)
      · refine Or.inr fun past hpast ↦ ?_
        rw [Option.toList_some, List.mem_singleton] at hpast
        exact hpast ▸ lt_of_le_of_ne (hhead.2 hslot) (Ne.symm hself)
    · intro slot hslot
      rw [hcurrent, Option.some.injEq] at hslot
      exact hslot ▸ List.mem_singleton_self head

section

variable (hserved : Served opening served before)
include hserved

theorem Served.covered_of_shrinks (hshrinks : Shrinks before after) :
    ∀ slot ∈ opening, slot ∈ served ∨ slot ∈ after.waiting ∨ slot ∈ after.gone := by
  intro slot hslot
  rcases hserved.covered slot hslot with hpast | hwaiting | hgone
  · exact Or.inl hpast
  · rcases hshrinks.left slot hwaiting with hstill | hcurrent | hgone
    · exact Or.inr (Or.inl hstill)
    · exact Or.inl (hserved.current slot hcurrent)
    · exact Or.inr (Or.inr hgone)
  · exact Or.inr (Or.inr (hshrinks.gone hgone))

/-- Once the slot in service left, everything that waits is beyond all that was served. -/
theorem Served.lt_of_vacates (hshrinks : Shrinks before after) (hvacates : Vacates before after) :
    ∀ slot ∈ after.waiting, ∀ past ∈ served, past < slot := by
  intro slot hslot
  rcases hserved.ahead slot (hshrinks.waiting hslot) with hcurrent | hahead
  · exact absurd hslot (hvacates slot hcurrent)
  · exact hahead

theorem Served.step (hstep : Step before after next) :
    Served opening (served ++ next.toList) after := by
  cases hstep with
  | stay hshrinks hsame =>
    rw [Option.toList_none, List.append_nil]
    refine ⟨hserved.ordered, hserved.opened, hshrinks.waiting.trans hserved.within, ?_, ?_,
      hserved.covered_of_shrinks hshrinks⟩
    · rw [hsame]
      exact fun slot hslot ↦ hserved.ahead slot (hshrinks.waiting hslot)
    · rw [hsame]
      exact hserved.current
  | stop hshrinks hvacates hidle =>
    rw [Option.toList_none, List.append_nil]
    refine ⟨hserved.ordered, hserved.opened, hshrinks.waiting.trans hserved.within, ?_, ?_,
      hserved.covered_of_shrinks hshrinks⟩
    · exact fun slot hslot ↦ Or.inr (hserved.lt_of_vacates hshrinks hvacates slot hslot)
    · rw [hidle]
      exact nofun
  | @pass head hshrinks hvacates hleast htaken =>
    have hbeyond := hserved.lt_of_vacates hshrinks hvacates
    have hmem (slot : σ) : slot ∈ served ++ (some head).toList ↔ slot ∈ served ∨ slot = head := by
      rw [Option.toList_some, List.mem_append, List.mem_singleton]
    refine ⟨?_, ?_, hshrinks.waiting.trans hserved.within, ?_, ?_, ?_⟩
    · refine List.pairwise_append.mpr ⟨hserved.ordered, List.pairwise_singleton .., ?_⟩
      intro past hpast slot hslot
      rw [Option.toList_some, List.mem_singleton] at hslot
      exact hslot ▸ hbeyond head hleast.1 past hpast
    · intro slot hslot
      rcases (hmem slot).mp hslot with hpast | rfl
      · exact hserved.opened slot hpast
      · exact hserved.within (hshrinks.waiting hleast.1)
    · intro slot hslot
      by_cases hself : slot = head
      · exact Or.inl (hself ▸ htaken)
      · refine Or.inr fun past hpast ↦ ?_
        rcases (hmem past).mp hpast with hpast | rfl
        · exact hbeyond slot hslot past hpast
        · exact lt_of_le_of_ne (hleast.2 hslot) (Ne.symm hself)
    · intro slot hslot
      rw [htaken, Option.some.injEq] at hslot
      exact (hmem slot).mpr (Or.inr hslot.symm)
    · intro slot hslot
      exact (hserved.covered_of_shrinks hshrinks slot hslot).imp_left fun hpast ↦
        (hmem slot).mpr (Or.inl hpast)

theorem Served.finish (hshrinks : Shrinks before after) (hempty : ∀ slot, slot ∉ after.waiting) :
    ∀ slot ∈ opening, slot ∈ served ∨ slot ∈ after.gone := by
  intro slot hslot
  rcases hserved.covered_of_shrinks hshrinks slot hslot with hpast | hwaiting | hgone
  · exact Or.inl hpast
  · exact absurd hwaiting (hempty slot)
  · exact Or.inr hgone

end

end Service

end Crpg.Lib
