import Crpg.Sim.Plan
import Mathlib.Data.Nat.Nth

/-!
# Identities of the synthetic bonus modifiers

`bonus_modifiers` of `crpg-sim/src/combat.rs`: one `u128` counter, shared by all values, walks past
the identities a view uses. Below the counter lie as many unused identities as values have been
served (`Nat.count`), so the `k`-th value takes the `k`-th unused identity (`Nat.nth`). A view has
fewer identities than the counter has room for, so no increment overflows.
-/

set_option autoImplicit false

namespace Crpg.Sim

open Crpg.Core Crpg.Lib Crpg.Rules Crpg.Data

/-! ### The counter -/

/-- The largest `u128`. -/
def u128Max : ℕ := 2 ^ 128 - 1

/-- The counter's increment, which overflows at the largest `u128`. -/
def increment (next : ℕ) : Option ℕ := if next < u128Max then some (next + 1) else none

/-- `bonus_modifiers` with the overflow of its counter. -/
def bonusModifiersChecked (ability : Ulid) (values : List ℤ) (tag : TagId) (view : List Modifier) :
    Option (List Modifier) :=
  bonusFrom increment ability tag (view.map Modifier.id).toFinset values 1

/-! ### Unused identities -/

/-- A number from one that is none of the identities. -/
def Unused (ids : List Ulid) (number : ℕ) : Prop := 1 ≤ number ∧ ∀ id ∈ ids, id.val ≠ number

instance (ids : List Ulid) : DecidablePred (Unused ids) :=
  fun _ ↦ inferInstanceAs (Decidable (_ ∧ _))

section Unused

variable {ids : List Ulid} {number : ℕ}

/-- Within the counter's range the loop's test is the test for an unused identity. -/
theorem ofNat_mem_iff (ids : List Ulid) (hpositive : 1 ≤ number) (hroom : number ≤ u128Max) :
    Fin.ofNat (2 ^ 128) number ∈ ids.toFinset ↔ ¬Unused ids number := by
  have hval : (Fin.ofNat (2 ^ 128) number).val = number := by
    apply Nat.mod_eq_of_lt
    unfold u128Max at hroom
    omega
  rw [List.mem_toFinset]
  constructor
  · intro hmem hunused
    exact hunused.2 _ hmem hval
  · intro hused
    by_contra habsent
    refine hused ⟨hpositive, fun id hid heq ↦ habsent ?_⟩
    have hsame : Fin.ofNat (2 ^ 128) number = id := by
      apply Fin.ext
      rw [hval, heq]
    rw [hsame]
    exact hid

/-- There are unused numbers past every number. -/
theorem unused_infinite (ids : List Ulid) : (Set.ofPred (Unused ids)).Infinite := by
  apply Set.infinite_of_forall_exists_gt
  intro bound
  refine ⟨bound + 2 ^ 128, ⟨by omega, fun id _ heq ↦ ?_⟩, by omega⟩
  have hsmall := id.isLt
  omega

/-- Below a number all but the used ones and zero are unused. -/
theorem le_count_unused (ids : List Ulid) (number : ℕ) :
    number ≤ Nat.count (Unused ids) number + ids.toFinset.card + 1 := by
  have hcover : Finset.range number ⊆
      {n ∈ Finset.range number | Unused ids n} ∪ insert 0 (ids.toFinset.image Fin.val) := by
    intro n hn
    by_cases hunused : Unused ids n
    · exact Finset.mem_union_left _ (Finset.mem_filter.mpr ⟨hn, hunused⟩)
    · apply Finset.mem_union_right
      rw [Finset.mem_insert]
      by_cases hzero : n = 0
      · exact Or.inl hzero
      · right
        by_contra habsent
        refine hunused ⟨Nat.one_le_iff_ne_zero.mpr hzero, fun id hid heq ↦ habsent ?_⟩
        exact Finset.mem_image.mpr ⟨id, List.mem_toFinset.mpr hid, heq⟩
  have hcard := Finset.card_le_card hcover
  rw [Finset.card_range] at hcard
  have hunion := Finset.card_union_le {n ∈ Finset.range number | Unused ids n}
    (insert 0 (ids.toFinset.image Fin.val))
  have hinsert := Finset.card_insert_le 0 (ids.toFinset.image Fin.val)
  have himage : (ids.toFinset.image Fin.val).card ≤ ids.toFinset.card := Finset.card_image_le
  rw [Nat.count_eq_card_filter_range]
  omega

/-- A modifier past the first unused numbers of a view leaves them the first. -/
theorem nth_unused_of_lt {before after : List Modifier} {extra : Modifier} {k : ℕ}
    (hlt : Nat.nth (Unused ((before ++ after).map Modifier.id)) k < extra.id.val) :
    Nat.nth (Unused ((before ++ extra :: after).map Modifier.id)) k =
      Nat.nth (Unused ((before ++ after).map Modifier.id)) k := by
  have hinfinite := unused_infinite ((before ++ after).map Modifier.id)
  have hagree (n : ℕ) (hn : n < extra.id.val) :
      Unused ((before ++ extra :: after).map Modifier.id) n ↔
        Unused ((before ++ after).map Modifier.id) n := by
    unfold Unused
    simp only [List.map_append, List.map_cons, List.mem_append, List.mem_cons]
    refine and_congr_right fun _ ↦ ⟨fun hall other hother ↦ hall other ?_, ?_⟩
    · exact hother.imp_right Or.inr
    · intro hall other hother
      obtain hfront | rfl | hback := hother
      · exact hall other (Or.inl hfront)
      · exact hn.ne'
      · exact hall other (Or.inr hback)
  have hunused := (hagree _ hlt).mpr (Nat.nth_mem_of_infinite hinfinite k)
  have hcount : Nat.count (Unused ((before ++ extra :: after).map Modifier.id))
      (Nat.nth (Unused ((before ++ after).map Modifier.id)) k) = k := by
    refine Eq.trans ?_ (Nat.count_nth_of_infinite hinfinite k)
    rw [Nat.count_eq_card_filter_range, Nat.count_eq_card_filter_range]
    congr 1
    apply Finset.filter_congr
    intro n hn
    exact hagree n ((Finset.mem_range.mp hn).trans hlt)
  have hnth := Nat.nth_count hunused
  rwa [hcount] at hnth

end Unused

/-! ### The loops -/

section Loops

variable {ids : List Ulid} {next : ℕ}

/-- The inner loop ends at the first unused number, when its increment is exact on the way. -/
theorem freshFrom_spec {step : ℕ → Option ℕ} (hstep : ∀ number < u128Max,
      step number = some (number + 1)) (fuel : ℕ) (hpositive : 1 ≤ next)
    (hroom : next + fuel ≤ u128Max) (hfuel : {id ∈ ids.toFinset | next ≤ id.val}.card < fuel) :
    ∃ fresh, freshFrom step ids.toFinset fuel next = some fresh ∧ Unused ids fresh ∧
      Nat.count (Unused ids) fresh = Nat.count (Unused ids) next := by
  induction fuel generalizing next with
  | zero => exact absurd hfuel (Nat.not_lt_zero _)
  | succ fuel ih =>
    have hmem := ofNat_mem_iff ids hpositive (by omega)
    rw [freshFrom]
    by_cases hunused : Unused ids next
    · have habsent := fun hused ↦ hmem.mp hused hunused
      rw [if_neg habsent]
      exact ⟨next, rfl, hunused, rfl⟩
    · rw [if_pos (hmem.mpr hunused), hstep next (by omega), Option.bind_some]
      -- The identity just passed is no longer ahead of the counter.
      have hfewer : {id ∈ ids.toFinset | next + 1 ≤ id.val} ⊂
          {id ∈ ids.toFinset | next ≤ id.val} := by
        rw [Finset.ssubset_iff_of_subset (Finset.monotone_filter_right _ fun _ _ hle ↦ by omega)]
        have hval : (Fin.ofNat (2 ^ 128) next).val = next := by
          apply Nat.mod_eq_of_lt
          unfold u128Max at hroom
          omega
        refine ⟨Fin.ofNat (2 ^ 128) next, Finset.mem_filter.mpr ⟨hmem.mpr hunused, hval.ge⟩, ?_⟩
        intro hahead
        have hle := (Finset.mem_filter.mp hahead).2
        omega
      have hless := Finset.card_lt_card hfewer
      have hlater : 1 ≤ next + 1 := by omega
      obtain ⟨fresh, hfresh, hfound, hcount⟩ := ih hlater (by omega) (by omega)
      refine ⟨fresh, hfresh, hfound, hcount.trans ?_⟩
      rw [Nat.count_succ, if_neg hunused, Nat.add_zero]

/-- The modifiers of values that take the unused numbers from the `served`-th on. -/
noncomputable def takenFrom (ability : Ulid) (tag : TagId) (ids : List Ulid) (served : ℕ)
    (values : List ℤ) : List Modifier :=
  values.mapIdx fun k value ↦
    bonusModifier ability tag value (Fin.ofNat _ (Nat.nth (Unused ids) (served + k)))

theorem takenFrom_cons (ability : Ulid) (tag : TagId) (served : ℕ) (value : ℤ) (rest : List ℤ) :
    takenFrom ability tag ids served (value :: rest) =
      bonusModifier ability tag value (Fin.ofNat _ (Nat.nth (Unused ids) served)) ::
        takenFrom ability tag ids (served + 1) rest := by
  unfold takenFrom
  rw [List.mapIdx_cons, Nat.add_zero]
  simp only [Nat.add_assoc, Nat.add_comm 1]

theorem getElem?_takenFrom (ability : Ulid) (tag : TagId) (values : List ℤ) (k : ℕ) :
    (takenFrom ability tag ids 0 values)[k]? = values[k]?.map fun value ↦
      bonusModifier ability tag value (Fin.ofNat _ (Nat.nth (Unused ids) k)) := by
  rw [takenFrom, List.getElem?_mapIdx, Nat.zero_add]

/-- Reached with the first `served` unused numbers taken, the outer loop takes the next ones in
order, when its increment is exact on the way. -/
theorem bonusFrom_eq {step : ℕ → Option ℕ} (hstep : ∀ number < u128Max,
      step number = some (number + 1)) (ability : Ulid) (tag : TagId) (values : List ℤ)
    {served : ℕ} (hpositive : 1 ≤ next) (hserved : Nat.count (Unused ids) next = served)
    (hroom : served + values.length + 2 * ids.toFinset.card + 2 ≤ u128Max) :
    bonusFrom step ability tag ids.toFinset values next =
      some (takenFrom ability tag ids served values) := by
  induction values generalizing next served with
  | nil => rfl
  | cons value rest ih =>
    rw [List.length_cons] at hroom
    have hnext := le_count_unused ids next
    obtain ⟨fresh, hfresh, hunused, hcount⟩ :=
      freshFrom_spec hstep (ids.toFinset.card + 1) hpositive (by omega)
        (Nat.lt_succ_of_le (Finset.card_filter_le _ _))
    rw [hserved] at hcount
    have hnth : Nat.nth (Unused ids) served = fresh := by
      rw [← hcount]
      exact Nat.nth_count hunused
    have hafter : Nat.count (Unused ids) (fresh + 1) = served + 1 := by
      rw [Nat.count_succ, if_pos hunused, hcount]
    have hbound := le_count_unused ids fresh
    have hothers := ih (by omega) hafter (by omega)
    rw [bonusFrom, hfresh, takenFrom_cons, hnth]
    show (step fresh).bind (fun after ↦ (bonusFrom step ability tag ids.toFinset rest
      after).bind fun others ↦ some (bonusModifier ability tag value (Fin.ofNat _ fresh) ::
        others)) = _
    rw [hstep fresh (by omega), Option.bind_some, hothers, Option.bind_some]

end Loops

/-! ### The modifiers -/

theorem bonusModifiers_eq (ability : Ulid) (tag : TagId) (values : List ℤ) (view : List Modifier)
    (hroom : values.length + 2 * view.length + 2 ≤ u128Max) :
    bonusModifiersChecked ability values tag view =
        some (takenFrom ability tag (view.map Modifier.id) 0 values) ∧
      bonusModifiers ability values tag view =
        some (takenFrom ability tag (view.map Modifier.id) 0 values) := by
  have hcard := List.toFinset_card_le (view.map Modifier.id)
  rw [List.length_map] at hcard
  have hnone : Nat.count (Unused (view.map Modifier.id)) 1 = 0 := by
    rw [Nat.count_one, if_neg fun hzero ↦ absurd hzero.1 (by decide)]
  exact ⟨bonusFrom_eq (fun _ hroom ↦ if_pos hroom) ability tag values le_rfl hnone (by omega),
    bonusFrom_eq (fun _ _ ↦ rfl) ability tag values le_rfl hnone (by omega)⟩

/-- The unused numbers the values take are identities. -/
theorem nth_unused_lt {ids : List Ulid} {k : ℕ} (hroom : k + ids.length + 1 < 2 ^ 128) :
    Nat.nth (Unused ids) k < 2 ^ 128 := by
  have hcount := le_count_unused ids (Nat.nth (Unused ids) k)
  rw [Nat.count_nth_of_infinite (unused_infinite ids)] at hcount
  have hcard := List.toFinset_card_le ids
  omega

/-- The synthetic bonus modifiers exactly. Assumes: the lengths fit a `usize`, as those of every
`Vec` and slice do. -/
theorem bonus_modifiers_exact (ability : Ulid) (values : List ℤ) (tag : TagId)
    (view : List Modifier) (hvalues : values.length < 2 ^ 64) (hview : view.length < 2 ^ 64) :
    ∃ taken, bonusModifiers ability values tag view = some taken ∧
      bonusModifiersChecked ability values tag view = some taken ∧ taken.length = values.length ∧
      (∀ k value, values[k]? = some value → ∃ id, taken[k]? = some
        (bonusModifier ability tag value id) ∧ id.val = Nat.nth (Unused (view.map Modifier.id)) k) ∧
      ((view.map Modifier.id).Nodup → ((view ++ taken).map Modifier.id).Nodup) ∧
      ∀ before after extra, view = before ++ after → (∀ modifier ∈ taken, modifier.id < extra.id) →
          bonusModifiers ability values tag (before ++ extra :: after) = some taken := by
  have hinfinite := unused_infinite (view.map Modifier.id)
  have hval {k : ℕ} (hk : k < values.length) :
      (Fin.ofNat (2 ^ 128) (Nat.nth (Unused (view.map Modifier.id)) k)).val =
        Nat.nth (Unused (view.map Modifier.id)) k := by
    apply Nat.mod_eq_of_lt
    apply nth_unused_lt
    rw [List.length_map]
    omega
  obtain ⟨hchecked, htaken⟩ := bonusModifiers_eq ability tag values view
    (by unfold u128Max; omega)
  refine ⟨_, htaken, hchecked, List.length_mapIdx, fun k value hvalue ↦ ?_, fun hnodup ↦ ?_,
    fun before after extra hsplit hlast ↦ ?_⟩
  · obtain ⟨hk, -⟩ := List.getElem?_eq_some_iff.mp hvalue
    rw [getElem?_takenFrom, hvalue]
    exact ⟨_, rfl, hval hk⟩
  · have hids : (takenFrom ability tag (view.map Modifier.id) 0 values).map (·.id.val) =
        (List.range values.length).map (Nat.nth (Unused (view.map Modifier.id))) := by
      unfold takenFrom
      apply List.ext_getElem
      · simp
      · intro k hk _
        rw [List.length_map, List.length_mapIdx] at hk
        rw [List.getElem_map, List.getElem_mapIdx, List.getElem_map, List.getElem_range,
          Nat.zero_add]
        exact hval hk
    rw [List.map_append, List.nodup_append']
    refine ⟨hnodup, ?_, ?_⟩
    · apply List.Nodup.of_map Fin.val
      rw [List.map_map]
      refine Eq.subst hids.symm ?_
      exact List.nodup_range.map (Nat.nth_injective hinfinite)
    · intro id hid htaken
      obtain ⟨modifier, hmodifier, rfl⟩ := List.mem_map.mp htaken
      have hmem : modifier.id.val ∈ (List.range values.length).map
          (Nat.nth (Unused (view.map Modifier.id))) := by
        rw [← hids]
        exact List.mem_map_of_mem hmodifier
      obtain ⟨k, -, hk⟩ := List.mem_map.mp hmem
      exact (Nat.nth_mem_of_infinite hinfinite k).2 _ hid hk.symm
  · subst hsplit
    rw [List.length_append] at hview
    have hmore := (bonusModifiers_eq ability tag values (before ++ extra :: after)
      (by rw [List.length_append, List.length_cons]; unfold u128Max; omega)).2
    rw [hmore, Option.some.injEq]
    apply List.ext_getElem?
    intro k
    rw [getElem?_takenFrom, getElem?_takenFrom]
    cases hvalue : values[k]? with
    | none => rfl
    | some value =>
      have htake := @getElem?_takenFrom ((before ++ after).map Modifier.id) ability tag values k
      rw [hvalue] at htake
      have hlt := Fin.lt_def.mp (hlast _ (List.mem_of_getElem? htake))
      obtain ⟨hk, -⟩ := List.getElem?_eq_some_iff.mp hvalue
      rw [nth_unused_of_lt ((hval hk).symm.trans_lt hlt)]

/-- Beside a view that uses one and three, two values take two and four. -/
theorem bonus_modifiers_exact_example : let view := [bonusModifier 9 0 5 1, bonusModifier 9 0 5 3]
    ∃ taken, bonusModifiers 9 [2, -1] 0 view = some taken ∧ taken.length = 2 ∧
      ((view ++ taken).map Modifier.id).Nodup := by
  obtain ⟨taken, htaken, -, hlength, -, hdistinct, -⟩ := bonus_modifiers_exact 9 [2, -1] 0
    [bonusModifier 9 0 5 1, bonusModifier 9 0 5 3] (by decide) (by decide)
  exact ⟨taken, htaken, hlength, hdistinct (by decide)⟩

end Crpg.Sim
