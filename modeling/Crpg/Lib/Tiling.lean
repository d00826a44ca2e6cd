import Mathlib.Order.Lattice
import Mathlib.Data.List.Count

/-!
# Tilings of an interval

A list of half-open intervals tiles `(start, stop]` when each begins where the one before it ended.
Then every point of `(start, stop]` lies in exactly one of them, and no other point in any.
-/

set_option autoImplicit false

namespace Crpg.Lib

variable {α : Type*} [LinearOrder α]

/-- The intervals lead from `start` to `stop` without gap or overlap. -/
def Tiles : α → List (α × α) → α → Prop
  | start, [], stop => start = stop
  | start, interval :: rest, stop =>
    interval.1 = start ∧ interval.1 ≤ interval.2 ∧ Tiles interval.2 rest stop

/-- How many of the intervals hold a point. -/
def covers (intervals : List (α × α)) (point : α) : ℕ :=
  intervals.countP fun interval ↦ interval.1 < point ∧ point ≤ interval.2

namespace Tiles

variable {start middle stop : α} {intervals : List (α × α)}

theorem append {later : List (α × α)} (hfirst : Tiles start intervals middle)
    (hsecond : Tiles middle later stop) : Tiles start (intervals ++ later) stop := by
  induction intervals generalizing start with
  | nil =>
    cases hfirst
    exact hsecond
  | cons interval rest ih =>
    obtain ⟨hstart, hgrows, hrest⟩ := hfirst
    exact ⟨hstart, hgrows, ih hrest⟩

theorem covers_of_le (htiles : Tiles start intervals stop) {point : α} (hbefore : point ≤ start) :
    covers intervals point = 0 := by
  induction intervals generalizing start with
  | nil => rfl
  | cons interval rest ih =>
    obtain ⟨rfl, hgrows, hrest⟩ := htiles
    rw [covers, List.countP_cons_of_neg (by simp [hbefore.not_gt])]
    exact ih hrest (hbefore.trans hgrows)

theorem covers_of_mem (htiles : Tiles start intervals stop) {point : α} (hafter : start < point)
    (hwithin : point ≤ stop) : covers intervals point = 1 := by
  induction intervals generalizing start with
  | nil =>
    cases htiles
    exact absurd hwithin hafter.not_ge
  | cons interval rest ih =>
    obtain ⟨rfl, hgrows, hrest⟩ := htiles
    by_cases hhere : point ≤ interval.2
    · rw [covers, List.countP_cons_of_pos (by simp [hafter, hhere])]
      exact congrArg (· + 1) (hrest.covers_of_le hhere)
    · rw [covers, List.countP_cons_of_neg (by simp [hhere])]
      exact ih hrest (lt_of_not_ge hhere)

end Tiles

end Crpg.Lib
