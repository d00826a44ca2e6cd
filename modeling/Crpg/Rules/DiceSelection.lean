import Crpg.Lib.Extremal
import Crpg.Lib.MachineInteger
import Crpg.Rules.Transaction

/-!
# Keep and drop selections are optimal

`apply_selection` and the total of `crpg-rules/src/dice.rs`. Ranking orders the indices of the dice
by face, earlier indices first among equals, and a selection keeps a prefix or a suffix of that
order. So a selection that keeps the highest dice, or drops the lowest, keeps the largest sum of its
number of dice, and the other two the smallest (`keeps_selected`). The total is the kept sum and the
offset, and its 64-bit accumulator has room for every expression the constructor accepts.
-/

set_option autoImplicit false

namespace Crpg.Rules

open Crpg.Core Crpg.Lib

namespace DiceExpr

/-! ### Ranks -/

def faceAt (dice : List DieResult) (index : ℕ) : ℕ := (dice[index]?.map DieResult.value).getD 0

variable {highest : Bool} {dice : List DieResult} {left right : ℕ}

theorem ranksBefore_iff : ranksBefore highest dice left right = true ↔
      (if highest then faceAt dice right < faceAt dice left else
        faceAt dice left < faceAt dice right) ∨ faceAt dice left = faceAt dice right ∧ left ≤ right := by
  cases highest with
  | true =>
    have hsame : faceAt dice right = faceAt dice left ↔ faceAt dice left = faceAt dice right :=
      eq_comm
    rw [if_pos rfl, ← hsame]
    exact decide_eq_true_iff
  | false =>
    rw [if_neg Bool.false_ne_true]
    exact decide_eq_true_iff

theorem ranked_perm (highest : Bool) (dice : List DieResult) :
    (ranked highest dice).Perm (List.range dice.length) := List.perm_insertionSort _ _

theorem nodup_ranked (highest : Bool) (dice : List DieResult) : (ranked highest dice).Nodup :=
  (ranked_perm highest dice).nodup_iff.mpr List.nodup_range

theorem toFinset_ranked (highest : Bool) (dice : List DieResult) :
    (ranked highest dice).toFinset = Finset.range dice.length := by
  ext index
  rw [List.mem_toFinset, (ranked_perm highest dice).mem_iff, List.mem_range, Finset.mem_range]

theorem pairwise_ranked (highest : Bool) (dice : List DieResult) :
    (ranked highest dice).Pairwise fun left right ↦ ranksBefore highest dice left right = true := by
  have htotal : Std.Total fun left right ↦ ranksBefore highest dice left right = true := by
    constructor
    intro left right
    rw [ranksBefore_iff, ranksBefore_iff]
    split_ifs <;> omega
  have htrans : IsTrans ℕ fun left right ↦ ranksBefore highest dice left right = true := by
    constructor
    intro first second third
    rw [ranksBefore_iff, ranksBefore_iff, ranksBefore_iff]
    split_ifs <;> omega
  exact List.pairwise_insertionSort _ _

theorem descending_ranked (dice : List DieResult) :
    (ranked true dice).Pairwise fun left right ↦ faceAt dice right ≤ faceAt dice left := by
  apply (pairwise_ranked true dice).imp
  intro left right hranks
  rw [ranksBefore_iff, if_pos rfl] at hranks
  omega

theorem ascending_ranked (dice : List DieResult) :
    (ranked false dice).Pairwise fun left right ↦ faceAt dice left ≤ faceAt dice right := by
  apply (pairwise_ranked false dice).imp
  intro left right hranks
  rw [ranksBefore_iff, if_neg Bool.false_ne_true] at hranks
  omega

/-- Among equal faces the earlier index ranks first. -/
theorem ties_ranked (hlt : left < right) (hright : right < dice.length)
    (htie : faceAt dice left = faceAt dice right) :
    [left, right].Sublist (ranked highest dice) := by
  have hinrange : [left, right].Sublist (List.range dice.length) := by
    have hsubperm : [left, right].Subperm (List.range dice.length) := by
      apply List.Nodup.subperm (List.nodup_cons.mpr ⟨by simp [hlt.ne], List.nodup_singleton right⟩)
      intro index hindex
      rw [List.mem_pair] at hindex
      rw [List.mem_range]
      omega
    exact List.sublist_of_subperm_of_pairwise hsubperm (List.pairwise_pair.mpr hlt.le)
      (List.pairwise_lt_range.imp le_of_lt)
  apply List.pair_sublist_insertionSort _ hinrange
  rw [ranksBefore_iff]
  exact Or.inr ⟨htie, hlt.le⟩

/-! ### Kept dice -/

def keptIndices (dice : List DieResult) : Finset ℕ :=
  (Finset.range dice.length).filter fun index ↦ (dice[index]?.map DieResult.kept).getD false = true

def keptSum (dice : List DieResult) : ℕ :=
  ((dice.filter DieResult.kept).map DieResult.value).sum

def drawnDice (faces : List ℕ) : List DieResult := faces.map fun face ↦ ⟨face, true⟩

theorem keptSum_eq (dice : List DieResult) :
    keptSum dice = ∑ index ∈ keptIndices dice, faceAt dice index := by
  unfold keptIndices
  rw [Finset.sum_filter]
  induction dice with
  | nil => rfl
  | cons die rest ih =>
    rw [List.length_cons, Finset.sum_range_succ']
    unfold keptSum at ih ⊢
    have htail : ∀ index, faceAt (die :: rest) (index + 1) = faceAt rest index := fun _ ↦ rfl
    simp only [htail, List.getElem?_cons_succ, ← ih]
    by_cases hkept : die.kept = true
    · simp [faceAt, hkept, add_comm]
    · simp [hkept]

/-- Dropping dice of a fresh roll keeps the others. -/
theorem keptIndices_dropAt (faces indices : List ℕ) :
    keptIndices (dropAt (drawnDice faces) indices) =
      Finset.range faces.length \ indices.toFinset := by
  ext index
  unfold keptIndices dropAt drawnDice
  rw [Finset.mem_filter, Finset.mem_sdiff, List.mem_toFinset, List.length_mapIdx, List.length_map]
  apply and_congr_right
  intro hindex
  rw [Finset.mem_range] at hindex
  have hget : faces[index]? = some faces[index] := List.getElem?_eq_getElem hindex
  rw [List.getElem?_mapIdx, List.getElem?_map, hget]
  by_cases hdropped : index ∈ indices
  · simp [hdropped]
  · simp [hdropped]

section Kept

variable (faces : List ℕ) (highest : Bool) (count : ℕ)

theorem length_drawnDice : (drawnDice faces).length = faces.length := List.length_map _

theorem keptIndices_keep :
    keptIndices (dropAt (drawnDice faces) ((ranked highest (drawnDice faces)).drop count)) =
      ((ranked highest (drawnDice faces)).take count).toFinset := by
  rw [keptIndices_dropAt, ← length_drawnDice, ← toFinset_ranked highest,
    toFinset_sdiff_drop (nodup_ranked highest _)]

theorem keptIndices_drop :
    keptIndices (dropAt (drawnDice faces) ((ranked highest (drawnDice faces)).take count)) =
      ((ranked highest (drawnDice faces)).drop count).toFinset := by
  rw [keptIndices_dropAt, ← length_drawnDice, ← toFinset_ranked highest,
    toFinset_sdiff_take (nodup_ranked highest _)]

end Kept

/-- The kept dice are `count` of the drawn ones, with the largest sum of that number. -/
structure KeepsHighest (faces : List ℕ) (count : ℕ) (dice : List DieResult) : Prop where
  card : (keptIndices dice).card = count
  subset : keptIndices dice ⊆ Finset.range faces.length
  largest : ∀ chosen ⊆ Finset.range faces.length, chosen.card = count →
    ∑ index ∈ chosen, faceAt (drawnDice faces) index ≤ keptSum dice

/-- The kept dice are `count` of the drawn ones, with the smallest sum of that number. -/
structure KeepsLowest (faces : List ℕ) (count : ℕ) (dice : List DieResult) : Prop where
  card : (keptIndices dice).card = count
  subset : keptIndices dice ⊆ Finset.range faces.length
  smallest : ∀ chosen ⊆ Finset.range faces.length, chosen.card = count →
    keptSum dice ≤ ∑ index ∈ chosen, faceAt (drawnDice faces) index

theorem map_value_drawnDice (faces : List ℕ) : (drawnDice faces).map DieResult.value = faces := by
  unfold drawnDice
  rw [List.map_map]
  exact List.map_id faces

theorem faceAt_eq (dice : List DieResult) (index : ℕ) :
    faceAt dice index = (dice.map DieResult.value)[index]?.getD 0 := by
  rw [List.getElem?_map]
  rfl

variable {faces : List ℕ} {count : ℕ}

theorem ranked_subset {indices : List ℕ} (hindices : indices ⊆ ranked highest (drawnDice faces)) :
    indices.toFinset ⊆ Finset.range faces.length := by
  intro index hindex
  rw [← length_drawnDice, ← toFinset_ranked highest, List.mem_toFinset]
  exact hindices (List.mem_toFinset.mp hindex)

theorem length_ranked (highest : Bool) (faces : List ℕ) :
    (ranked highest (drawnDice faces)).length = faces.length := by
  rw [(ranked_perm highest _).length_eq, List.length_range, length_drawnDice]

theorem keptSum_of_faces (hdice : dice.map DieResult.value = faces) :
    keptSum dice = ∑ index ∈ keptIndices dice, faceAt (drawnDice faces) index := by
  rw [keptSum_eq]
  apply Finset.sum_congr rfl
  intro index _
  rw [faceAt_eq, faceAt_eq, hdice, map_value_drawnDice]

theorem faces_applySelection (faces : List ℕ) (selection : DiceSelection) :
    (applySelection (drawnDice faces) selection).map DieResult.value = faces := by
  rw [map_value_applySelection, map_value_drawnDice]

theorem card_keep (highest : Bool) (hcount : count ≤ faces.length) :
    (keptIndices (dropAt (drawnDice faces) ((ranked highest (drawnDice faces)).drop count))).card =
      count := by
  rw [keptIndices_keep, List.toFinset_card_of_nodup
    ((nodup_ranked highest _).sublist (List.take_sublist _ _)), List.length_take, length_ranked,
    min_eq_left hcount]

/-- Dropping the first of a ranking keeps the others. -/
theorem card_drop (highest : Bool) (faces : List ℕ) (count : ℕ) :
    (keptIndices (dropAt (drawnDice faces) ((ranked highest (drawnDice faces)).take count))).card =
      faces.length - count := by
  rw [keptIndices_drop, List.toFinset_card_of_nodup
    ((nodup_ranked highest _).sublist (List.drop_sublist _ _)), List.length_drop, length_ranked]

theorem subset_keep (highest : Bool) (faces : List ℕ) (count : ℕ) :
    keptIndices (dropAt (drawnDice faces) ((ranked highest (drawnDice faces)).drop count)) ⊆
      Finset.range faces.length := by
  rw [keptIndices_keep]
  exact ranked_subset (List.take_subset _ _)

theorem subset_drop (highest : Bool) (faces : List ℕ) (count : ℕ) :
    keptIndices (dropAt (drawnDice faces) ((ranked highest (drawnDice faces)).take count)) ⊆
      Finset.range faces.length := by
  rw [keptIndices_drop]
  exact ranked_subset (List.drop_subset _ _)

theorem chosen_ranked {chosen : Finset ℕ} (hchosen : chosen ⊆ Finset.range faces.length)
    (highest : Bool) : chosen ⊆ (ranked highest (drawnDice faces)).toFinset := by
  rw [toFinset_ranked, length_drawnDice]
  exact hchosen

theorem keepHighest_keeps (hcount : count ≤ faces.length) :
    KeepsHighest faces count (applySelection (drawnDice faces) (.keepHighest count)) := by
  refine ⟨card_keep true hcount, subset_keep true faces count, fun chosen hchosen hcard ↦ ?_⟩
  rw [keptSum_of_faces (faces_applySelection faces _), applySelection, keptIndices_keep, ← hcard]
  exact sum_le_sum_take (nodup_ranked true _) (descending_ranked _) (chosen_ranked hchosen true)

theorem keepLowest_keeps (hcount : count ≤ faces.length) :
    KeepsLowest faces count (applySelection (drawnDice faces) (.keepLowest count)) := by
  refine ⟨card_keep false hcount, subset_keep false faces count, fun chosen hchosen hcard ↦ ?_⟩
  rw [keptSum_of_faces (faces_applySelection faces _), applySelection, keptIndices_keep, ← hcard]
  exact sum_take_le_sum (nodup_ranked false _) (ascending_ranked _) (chosen_ranked hchosen false)

theorem dropHighest_keeps (hcount : count ≤ faces.length) : KeepsLowest faces (faces.length - count)
      (applySelection (drawnDice faces) (.dropHighest count)) := by
  refine ⟨card_drop true faces count, subset_drop true faces count, fun chosen hchosen hcard ↦ ?_⟩
  have hlast := sum_drop_le_sum (nodup_ranked true _) (chosen_ranked hchosen true)
    (descending_ranked _)
  rw [hcard, length_ranked, Nat.sub_sub_self hcount] at hlast
  rw [keptSum_of_faces (faces_applySelection faces _), applySelection, keptIndices_drop]
  exact hlast

theorem dropLowest_keeps (hcount : count ≤ faces.length) : KeepsHighest faces (faces.length - count)
      (applySelection (drawnDice faces) (.dropLowest count)) := by
  refine ⟨card_drop false faces count, subset_drop false faces count,
    fun chosen hchosen hcard ↦ ?_⟩
  have hlast := sum_le_sum_drop (nodup_ranked false _) (chosen_ranked hchosen false)
    (ascending_ranked _)
  rw [hcard, length_ranked, Nat.sub_sub_self hcount] at hlast
  rw [keptSum_of_faces (faces_applySelection faces _), applySelection, keptIndices_drop]
  exact hlast

theorem KeepsHighest.sum_eq {first second : List DieResult}
    (hfirst : KeepsHighest faces count first) (hsecond : KeepsHighest faces count second)
    (hfaces : first.map DieResult.value = faces) (hothers : second.map DieResult.value = faces) :
    keptSum first = keptSum second := by
  apply le_antisymm
  · rw [keptSum_of_faces hfaces]
    exact hsecond.largest _ hfirst.subset hfirst.card
  · rw [keptSum_of_faces hothers]
    exact hfirst.largest _ hsecond.subset hsecond.card

/-- Of two equal faces the earlier one is among the first of a ranking when the later one is. -/
theorem ties_take (hlt : left < right) (hright : right < dice.length)
    (htie : faceAt dice left = faceAt dice right)
    (htaken : right ∈ (ranked highest dice).take count) :
    left ∈ (ranked highest dice).take count := by
  have hmem : left ∈ ranked highest dice := by
    rw [(ranked_perm highest dice).mem_iff, List.mem_range]
    omega
  have hsorted := pairwise_ranked highest dice
  rw [← List.take_append_drop count (ranked highest dice), List.mem_append] at hmem
  rw [← List.take_append_drop count (ranked highest dice), List.pairwise_append] at hsorted
  apply hmem.resolve_right
  intro hdropped
  have hranks := hsorted.2.2 right htaken left hdropped
  rw [ranksBefore_iff] at hranks
  split_ifs at hranks <;> omega

/-- A keeping selection prefers the earlier of two equal faces, and a dropping one drops it first.
-/
theorem ties_kept (hlt : left < right) (hright : right < faces.length)
    (htie : faceAt (drawnDice faces) left = faceAt (drawnDice faces) right) (highest : Bool)
    (count : ℕ) : (right ∈ keptIndices
        (dropAt (drawnDice faces) ((ranked highest (drawnDice faces)).drop count)) →
      left ∈ keptIndices
        (dropAt (drawnDice faces) ((ranked highest (drawnDice faces)).drop count))) ∧
    (left ∈ keptIndices (dropAt (drawnDice faces) ((ranked highest (drawnDice faces)).take count)) →
      right ∈ keptIndices
        (dropAt (drawnDice faces) ((ranked highest (drawnDice faces)).take count))) := by
  have hwithin : right < (drawnDice faces).length := by rwa [length_drawnDice]
  rw [keptIndices_keep, List.mem_toFinset, List.mem_toFinset, keptIndices_dropAt,
    Finset.mem_sdiff, Finset.mem_sdiff, Finset.mem_range, Finset.mem_range, List.mem_toFinset,
    List.mem_toFinset]
  constructor
  · exact ties_take hlt hwithin htie
  · intro ⟨_, hkept⟩
    exact ⟨hright, fun htaken ↦ hkept (ties_take hlt hwithin htie htaken)⟩

/-! ### Totals -/

/-- Adds a die to the 64-bit accumulator when it is kept; `none` is an overflow. -/
def addKept (sum : ℤ) (die : DieResult) : Option ℤ :=
  if die.kept then MachineInteger.add 64 sum die.value else some sum

/-- The total of a roll over its 64-bit accumulator. -/
def machineTotal (offset : ℤ) (dice : List DieResult) : Option ℤ :=
  (dice.foldlM addKept offset).map clampI32

theorem totalOf_eq (offset : ℤ) (dice : List DieResult) :
    totalOf offset dice = clampI32 (keptSum dice + offset) := by
  have hsum : dice.foldl (fun sum die ↦ if die.kept then sum + (die.value : ℤ) else sum) offset =
      keptSum dice + offset := by
    induction dice generalizing offset with
    | nil => exact (zero_add offset).symm
    | cons die rest ih =>
      unfold keptSum at ih ⊢
      rw [List.foldl_cons, ih]
      by_cases hkept : die.kept = true
      · simp only [hkept, if_true, List.filter_cons, List.map_cons, List.sum_cons]
        push_cast
        ring
      · simp only [hkept, Bool.false_eq_true, if_false, List.filter_cons]
  unfold totalOf
  rw [hsum]

/-- The accumulator has room. -/
theorem machineTotal_eq {offset : ℤ} (hlow : -2147483648 ≤ offset)
    (hroom : offset + (dice.map DieResult.value).sum < 9223372036854775808) :
    machineTotal offset dice = some (totalOf offset dice) := by
  have hfold : dice.foldlM addKept offset = some
      (dice.foldl (fun sum die ↦ if die.kept then sum + (die.value : ℤ) else sum) offset) := by
    induction dice generalizing offset with
    | nil => rfl
    | cons die rest ih =>
      rw [List.map_cons, List.sum_cons, Nat.cast_add] at hroom
      rw [List.foldlM_cons, List.foldl_cons]
      by_cases hkept : die.kept = true
      · have hfits : MachineInteger.Fits 64 (offset + die.value) := by
          unfold MachineInteger.Fits
          constructor <;> omega
        rw [addKept, if_pos hkept, if_pos hkept, MachineInteger.add,
          MachineInteger.exact_of_fits hfits]
        exact ih (by omega) (by omega)
      · rw [addKept, if_neg hkept, if_neg hkept]
        exact ih hlow (by omega)
  unfold machineTotal totalOf
  rw [hfold]
  rfl

theorem face_of_rangeDraws {sides : ℕ} (hpos : 0 < sides) (hsides : sides ≤ maxDieSides)
    {stream last : Pcg32} {faces : List ℕ} (hdraws : RangeDraws sides stream faces last) :
    ∀ face ∈ faces, 1 ≤ face ∧ face ≤ sides := by
  have hbound : (UInt32.ofNat sides).toNat = sides :=
    UInt32.toNat_ofNat_of_lt' (lt_of_le_of_lt hsides (by decide))
  induction hdraws with
  | done stream => exact fun face hface ↦ absurd hface List.not_mem_nil
  | draw hdraw _ ih =>
    rw [List.forall_mem_cons]
    refine ⟨⟨Nat.succ_pos _, ?_⟩, ih⟩
    have hlt := UInt32.lt_iff_toNat_lt.mp (Pcg32.redraw_lt (UInt32.lt_iff_toNat_lt.mpr
      (by rw [hbound]; exact hpos)) hdraw)
    rw [hbound] at hlt
    exact hlt

theorem draw_eq_drawnDice {sides count : ℕ} {stream : Pcg32} {drawn : List DieResult × Pcg32}
    (hdraw : draw sides count stream = some drawn) :
    drawn.1 = drawnDice (drawn.1.map DieResult.value) := by
  induction count generalizing stream drawn with
  | zero => rw [← Option.some.inj hdraw]; rfl
  | succ count ih =>
    obtain ⟨first, -, hrest⟩ := Option.bind_eq_some_iff.mp hdraw
    obtain ⟨rest, hlater, heq⟩ := Option.bind_eq_some_iff.mp hrest
    rw [← Option.some.inj heq]
    show _ :: rest.1 = _ :: drawnDice (rest.1.map DieResult.value)
    rw [← ih hlater]

/-- An evaluated roll keeps what its selection keeps of drawn faces, and its total is the kept sum
and the offset, clamped, with room in the accumulator. Assumes: streams with odd increments, a valid
stream name and an offset of `i32`. -/
theorem evaluate_spec (expr : DiceExpr) (hoffset : InI32 expr.offset) {rng : DeterministicRng}
    (hodd : rng.IsOdd) {stream : String} (hstream : checkStream stream = .ok ()) :
    ∃ faces next, evaluate expr rng stream =
        .ok (some (⟨expr, applySelection (drawnDice faces) expr.selection,
          clampI32 (keptSum (applySelection (drawnDice faces) expr.selection) + expr.offset)⟩,
          next)) ∧ faces.length = expr.count ∧ (∀ face ∈ faces, 1 ≤ face ∧ face ≤ expr.sides) ∧
      machineTotal expr.offset (applySelection (drawnDice faces) expr.selection) = some (clampI32
          (keptSum (applySelection (drawnDice faces) expr.selection) + expr.offset)) := by
  obtain ⟨dice, last, hdraw, -, hlength, hdraws⟩ :=
    draw_spec expr.sides expr.count (hodd.stream stream)
  have hdice := draw_eq_drawnDice hdraw
  have hfaces := face_of_rangeDraws expr.sides_pos expr.sides_le hdraws
  have hcount : (dice.map DieResult.value).length = expr.count := by rw [List.length_map, hlength]
  dsimp only at hdice
  generalize dice.map DieResult.value = faces at hdice hfaces hcount
  have hroom : expr.offset +
      ((applySelection (drawnDice faces) expr.selection).map DieResult.value).sum <
        9223372036854775808 := by
    have hsum := List.sum_le_card_nsmul faces expr.sides fun face hface ↦ (hfaces face hface).2
    rw [hcount, Nat.nsmul_eq_mul] at hsum
    have hbound := hsum.trans (Nat.mul_le_mul expr.count_le expr.sides_le)
    have hlimits : maxDiceCount * maxDieSides = 1024000000 := rfl
    have hhigh := hoffset.2
    unfold i32Max at hhigh
    rw [faces_applySelection]
    omega
  refine ⟨faces, rng.setStream stream last, ?_, hcount, hfaces, ?_⟩
  · unfold evaluate
    rw [hstream, hdraw, hdice]
    show Except.ok (some (DiceRoll.mk _ _ (totalOf _ _), _)) = _
    rw [totalOf_eq]
  · rw [machineTotal_eq hoffset.1 hroom, totalOf_eq]

/-- Selections are optimal and totals exact. On any drawn faces: `keepHighest` and `dropLowest` keep
their number of dice with the largest sum of that number, `keepLowest` and `dropHighest` with the
smallest, and the faces stay in draw order; among equal faces the earlier index ranks first, so it
is kept first and dropped first. Keeping the highest and dropping the other lowest give one total,
though not always the same dice. An expression evaluates to the kept sum and the offset, clamped,
without an overflow on the way. -/
theorem selections_exact (faces : List ℕ) : (∀ count ≤ faces.length,
      KeepsHighest faces count (applySelection (drawnDice faces) (.keepHighest count)) ∧
      KeepsLowest faces count (applySelection (drawnDice faces) (.keepLowest count)) ∧
      KeepsLowest faces (faces.length - count)
        (applySelection (drawnDice faces) (.dropHighest count)) ∧
      KeepsHighest faces (faces.length - count)
        (applySelection (drawnDice faces) (.dropLowest count)) ∧
      keptSum (applySelection (drawnDice faces) (.keepHighest count)) =
        keptSum (applySelection (drawnDice faces) (.dropLowest (faces.length - count)))) ∧
    (∀ selection, (applySelection (drawnDice faces) selection).map DieResult.value = faces) ∧
    applySelection (drawnDice faces) .all = drawnDice faces ∧
    (∀ left right, left < right → right < faces.length →
      faceAt (drawnDice faces) left = faceAt (drawnDice faces) right → ∀ highest count,
      [left, right].Sublist (ranked highest (drawnDice faces)) ∧ (right ∈ keptIndices
          (dropAt (drawnDice faces) ((ranked highest (drawnDice faces)).drop count)) →
        left ∈ keptIndices
          (dropAt (drawnDice faces) ((ranked highest (drawnDice faces)).drop count))) ∧
      (left ∈ keptIndices
          (dropAt (drawnDice faces) ((ranked highest (drawnDice faces)).take count)) →
        right ∈ keptIndices
          (dropAt (drawnDice faces) ((ranked highest (drawnDice faces)).take count)))) ∧
    (∃ tied : List ℕ, applySelection (drawnDice tied) (.keepHighest 1) ≠
      applySelection (drawnDice tied) (.dropLowest (tied.length - 1))) ∧
    ∀ (expr : DiceExpr) (rng : DeterministicRng) (stream : String), InI32 expr.offset →
      rng.IsOdd → checkStream stream = .ok () → ∃ drawn next, evaluate expr rng stream =
          .ok (some (⟨expr, applySelection (drawnDice drawn) expr.selection,
            clampI32 (keptSum (applySelection (drawnDice drawn) expr.selection) + expr.offset)⟩,
            next)) ∧ drawn.length = expr.count ∧ (∀ face ∈ drawn, 1 ≤ face ∧ face ≤ expr.sides) ∧
        machineTotal expr.offset (applySelection (drawnDice drawn) expr.selection) = some (clampI32
            (keptSum (applySelection (drawnDice drawn) expr.selection) + expr.offset)) := by
  refine ⟨fun count hcount ↦ ⟨keepHighest_keeps hcount, keepLowest_keeps hcount,
      dropHighest_keeps hcount, dropLowest_keeps hcount, ?_⟩, faces_applySelection faces, rfl,
    fun left right hlt hright htie highest count ↦ ⟨?_, ties_kept hlt hright htie highest count⟩,
    ⟨[5, 5], by decide⟩,
    fun expr rng stream hoffset hodd hstream ↦ evaluate_spec expr hoffset hodd hstream⟩
  · have hdropped := dropLowest_keeps (Nat.sub_le faces.length count)
    rw [Nat.sub_sub_self hcount] at hdropped
    exact (keepHighest_keeps hcount).sum_eq hdropped (faces_applySelection faces _)
      (faces_applySelection faces _)
  · exact ties_ranked hlt (by rwa [length_drawnDice]) htie

/-- Of a six, a one and a six, the two highest dice. -/
theorem two_highest_of_three : keptSum (applySelection (drawnDice [6, 1, 6]) (.keepHighest 2)) =
    keptSum (applySelection (drawnDice [6, 1, 6]) (.dropLowest 1)) :=
  ((selections_exact [6, 1, 6]).1 2 (by decide)).2.2.2.2

end DiceExpr

end Crpg.Rules
