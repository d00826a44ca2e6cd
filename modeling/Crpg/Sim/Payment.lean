import Mathlib.Algebra.Order.BigOperators.Group.List
import Crpg.Sim.LifecycleRun

/-!
# Paying for an action

The check sums the costs that name a pool and compares the sum with the balance; the payment walks
the costs one by one. For a combatant whose pools have distinct identities both speak of `drawn`,
the sum of the costs of a pool: what was found affordable is paid, each pool loses exactly that sum,
and nothing else of the combatant changes.
-/

set_option autoImplicit false

namespace Crpg.Sim

open Crpg.Core Crpg.Lib Crpg.Rules Crpg.Data
open List (map_cons map_map mem_cons mem_map_of_mem nodup_cons sum_cons)

/-! ### Drawing from pools -/

def drawn (costs : List (Ulid × ℕ)) (pool : Ulid) : ℕ :=
  ((costs.filter fun cost ↦ cost.1 = pool).map Prod.snd).sum

theorem drawn_cons (cost : Ulid × ℕ) (costs : List (Ulid × ℕ)) (pool : Ulid) :
    drawn (cost :: costs) pool = (if cost.1 = pool then cost.2 else 0) + drawn costs pool := by
  unfold drawn
  rw [List.filter_cons]
  by_cases hpool : cost.1 = pool
  · rw [if_pos (decide_eq_true hpool), if_pos hpool, map_cons, sum_cons]
  · rw [if_neg (by simpa using hpool), if_neg hpool, Nat.zero_add]

def less (pool : ResourcePool) (amount : ℕ) : ResourcePool :=
  { pool with
    current := pool.current - amount
    current_le := pool.sub_le_max amount }

@[simp]
theorem less_id (pool : ResourcePool) (amount : ℕ) : (less pool amount).id = pool.id := rfl

theorem less_zero (pool : ResourcePool) : less pool 0 = pool := rfl

theorem less_less (pool : ResourcePool) (first second : ℕ) :
    less (less pool first) second = less pool (first + second) := by
  unfold less
  simp only [Nat.sub_sub]

variable {amount : ℕ}

theorem spend_eq_ok {pool : ResourcePool} (hle : amount ≤ pool.current) :
    pool.spend amount = .ok (less pool amount) := by
  unfold ResourcePool.spend
  rw [if_neg (not_lt.mpr hle)]
  rfl

namespace Combatant

variable {combatant : Combatant}

def charge (combatant : Combatant) (amount : Ulid → ℕ) : Combatant :=
  { combatant with
    actionPool := less combatant.actionPool (amount combatant.actionPool.id)
    extraPools := combatant.extraPools.map fun pool ↦ less pool (amount pool.id) }

theorem pools_charge (combatant : Combatant) (amount : Ulid → ℕ) :
    (combatant.charge amount).pools = combatant.pools.map fun pool ↦ less pool (amount pool.id) :=
  rfl

theorem charge_charge (combatant : Combatant) (first second : Ulid → ℕ) :
    (combatant.charge first).charge second =
      combatant.charge fun pool ↦ first pool + second pool := by
  unfold charge
  simp only [less_id, less_less, map_map, Function.comp_def]

theorem charge_zero (combatant : Combatant) : (combatant.charge fun _ ↦ 0) = combatant := by
  unfold charge
  simp only [less_zero, List.map_id']

/-- The balance of a pool of a combatant. Assumes: pools of distinct identities. -/
theorem poolBalance_eq (hnodup : (combatant.pools.map ResourcePool.id).Nodup) {pool : ResourcePool}
    (hpool : pool ∈ combatant.pools) : poolBalance combatant pool.id = some pool.current := by
  have hnodup' := nodup_cons.mp hnodup
  unfold poolBalance
  by_cases hprimary : combatant.actionPool.id = pool.id
  · rw [if_pos hprimary]
    rcases mem_cons.mp hpool with rfl | hextra
    · rfl
    · exact absurd (hprimary ▸ mem_map_of_mem hextra) hnodup'.1
  · rw [if_neg hprimary]
    have hextra : pool ∈ combatant.extraPools := by
      rcases mem_cons.mp hpool with rfl | hextra
      · exact absurd rfl hprimary
      · exact hextra
    have hfind : (combatant.extraPools.find? fun entry ↦ entry.id = pool.id) = some pool := by
      obtain ⟨found, hfound⟩ : ∃ found,
          (combatant.extraPools.find? fun entry ↦ entry.id = pool.id) = some found := by
        rw [← Option.isSome_iff_exists, List.find?_isSome]
        exact ⟨pool, hextra, by simp⟩
      have hid : found.id = pool.id := by simpa using List.find?_some hfound
      rw [hfound, List.inj_on_of_nodup_map hnodup'.2 (List.mem_of_find?_eq_some hfound) hextra hid]
    rw [hfind, Option.map_some]

theorem exists_of_poolBalance {pool : Ulid} {current : ℕ}
    (hbalance : poolBalance combatant pool = some current) :
    ∃ found ∈ combatant.pools, found.id = pool := by
  unfold poolBalance at hbalance
  by_cases hprimary : combatant.actionPool.id = pool
  · exact ⟨combatant.actionPool, List.mem_cons_self, hprimary⟩
  · rw [if_neg hprimary, Option.map_eq_some_iff] at hbalance
    obtain ⟨found, hfound, -⟩ := hbalance
    exact ⟨found, List.mem_cons_of_mem _ (List.mem_of_find?_eq_some hfound),
      by simpa using List.find?_some hfound⟩

end Combatant

/-! ### The payment -/

/-- Pools of other identities lose nothing. -/
theorem map_less_of_ne {id : Ulid} {items : List ResourcePool}
    (hother : id ∉ items.map ResourcePool.id) :
    (items.map fun pool ↦ less pool (if id = pool.id then amount else 0)) = items := by
  refine (List.map_congr_left fun pool hpool ↦ ?_).trans (List.map_id items)
  have hne : id ≠ pool.id := by
    intro heq
    rw [heq] at hother
    exact hother (mem_map_of_mem hpool)
  rw [if_neg hne]
  rfl

/-- Spending from the pool of an identity. Assumes: distinct identities, and a pool that covers it.
-/
theorem spendFirst_eq_some {id : Ulid} {items : List ResourcePool}
    (hnodup : (items.map ResourcePool.id).Nodup)
    (hpool : ∃ pool ∈ items, pool.id = id ∧ amount ≤ pool.current) : spendFirst id amount items =
      some (items.map fun pool ↦ less pool (if id = pool.id then amount else 0)) := by
  induction items with
  | nil =>
    obtain ⟨_, hmem, -⟩ := hpool
    exact absurd hmem List.not_mem_nil
  | cons head rest ih =>
    have hnodup' := nodup_cons.mp hnodup
    obtain ⟨pool, hmem, hid, hle⟩ := hpool
    unfold spendFirst
    by_cases hhead : head.id = id
    · have hsame : pool = head := by
        rcases mem_cons.mp hmem with hsame | hrest
        · exact hsame
        · refine absurd ?_ hnodup'.1
          rw [hhead, ← hid]
          exact mem_map_of_mem hrest
      rw [if_pos hhead, spend_eq_ok (hsame ▸ hle), map_cons, if_pos hhead.symm,
        map_less_of_ne (hhead ▸ hnodup'.1)]
    · have hrest : pool ∈ rest := by
        rcases mem_cons.mp hmem with rfl | hrest
        · exact absurd hid hhead
        · exact hrest
      rw [if_neg hhead, ih hnodup'.2 ⟨pool, hrest, hid, hle⟩, map_cons,
        if_neg (Ne.symm hhead), less_zero, Option.map_some]

variable {combatant : Combatant} {costs : List (Ulid × ℕ)}

/-- One cost. Assumes: distinct identities, and a pool that covers it. -/
theorem spendCost_eq_ok {cost : Ulid × ℕ} (hnodup : (combatant.pools.map ResourcePool.id).Nodup)
    (hpool : ∃ pool ∈ combatant.pools, pool.id = cost.1 ∧ cost.2 ≤ pool.current) :
    spendCost combatant cost =
      .ok (combatant.charge fun pool ↦ if cost.1 = pool then cost.2 else 0) := by
  have hnodup' := nodup_cons.mp hnodup
  obtain ⟨pool, hmem, hid, hle⟩ := hpool
  show _ = Result.ok { combatant with
    actionPool := less combatant.actionPool
      (if cost.1 = combatant.actionPool.id then cost.2 else 0)
    extraPools := combatant.extraPools.map fun pool ↦
      less pool (if cost.1 = pool.id then cost.2 else 0) }
  unfold spendCost
  by_cases hprimary : combatant.actionPool.id = cost.1
  · have hsame : pool = combatant.actionPool := by
      rcases mem_cons.mp hmem with hsame | hextra
      · exact hsame
      · refine absurd ?_ hnodup'.1
        rw [hprimary, ← hid]
        exact mem_map_of_mem hextra
    rw [if_pos hprimary, spend_eq_ok (hsame ▸ hle), if_pos hprimary.symm,
      map_less_of_ne (hprimary ▸ hnodup'.1)]
    rfl
  · have hextra : pool ∈ combatant.extraPools := by
      rcases mem_cons.mp hmem with rfl | hextra
      · exact absurd hid hprimary
      · exact hextra
    rw [if_neg hprimary, spendFirst_eq_some hnodup'.2 ⟨pool, hextra, hid, hle⟩,
      if_neg (Ne.symm hprimary), less_zero]
    rfl

/-- A whole payment. Assumes: distinct identities, and pools that cover what is drawn from them. -/
theorem foldlM_spendCost (hnodup : (combatant.pools.map ResourcePool.id).Nodup)
    (hpools : ∀ cost ∈ costs, ∃ pool ∈ combatant.pools, pool.id = cost.1)
    (hcover : ∀ pool ∈ combatant.pools, drawn costs pool.id ≤ pool.current) :
    Result.foldlM spendCost combatant costs = .ok (combatant.charge (drawn costs)) := by
  induction costs generalizing combatant with
  | nil => exact congrArg Result.ok combatant.charge_zero.symm
  | cons cost rest ih =>
    obtain ⟨pool, hmem, hid⟩ := hpools cost List.mem_cons_self
    have hfirst : cost.2 ≤ pool.current := by
      have hdrawn := hcover pool hmem
      rw [drawn_cons, if_pos hid.symm] at hdrawn
      exact (Nat.le_add_right _ _).trans hdrawn
    rw [Result.foldlM, spendCost_eq_ok hnodup ⟨pool, hmem, hid, hfirst⟩]
    show Result.foldlM spendCost _ rest = _
    have hids : ((combatant.charge fun pool ↦ if cost.1 = pool then cost.2 else 0).pools.map
        ResourcePool.id) = combatant.pools.map ResourcePool.id := by
      rw [Combatant.pools_charge, map_map]
      rfl
    rw [ih (hids ▸ hnodup) (fun other hother ↦ ?_) fun item hitem ↦ ?_, Combatant.charge_charge]
    · congr 2
      ext id
      exact (drawn_cons cost rest id).symm
    · obtain ⟨found, hfound, hsame⟩ := hpools other (List.mem_cons_of_mem _ hother)
      rw [Combatant.pools_charge]
      exact ⟨_, mem_map_of_mem hfound, hsame⟩
    · rw [Combatant.pools_charge] at hitem
      obtain ⟨before, hbefore, rfl⟩ := List.mem_map.mp hitem
      have hdrawn := hcover before hbefore
      rw [drawn_cons] at hdrawn
      show drawn rest before.id ≤ before.current - _
      omega

/-! ### The check -/

theorem drawn_of_costSum {pool : Ulid} {total : ℕ} (hsum : costSum costs pool = some total) :
    drawn costs pool = total := by
  have hfold : ∀ (items : List (Ulid × ℕ)) (start : Option ℕ),
      items.foldl (fun total cost ↦ total.bind fun total ↦
        if total + cost.2 ≤ u32Max then some (total + cost.2) else none) start = some total →
      ∃ first, start = some first ∧ total = first + (items.map Prod.snd).sum := by
    intro items
    induction items with
    | nil =>
      intro start hstart
      exact ⟨total, hstart, rfl⟩
    | cons item rest ih =>
      intro start hstart
      obtain ⟨middle, hmiddle, htotal⟩ := ih _ hstart
      obtain ⟨first, hfirst, hadd⟩ := Option.bind_eq_some_iff.mp hmiddle
      split_ifs at hadd
      refine ⟨first, hfirst, ?_⟩
      rw [htotal, ← Option.some.inj hadd, map_cons, sum_cons, Nat.add_assoc]
  obtain ⟨first, hfirst, htotal⟩ := hfold _ _ hsum
  rw [htotal, ← Option.some.inj hfirst, Nat.zero_add]
  rfl

theorem drawn_le_of_checkPool {pool : Ulid} (hcheck : checkPool combatant costs pool = .ok ()) :
    drawn costs pool ≤ (poolBalance combatant pool).getD 0 := by
  simp only [checkPool, Result.bind_eq_ok_iff, Result.okOr_eq_ok_iff,
    Result.failIf_eq_ok_iff] at hcheck
  obtain ⟨total, hsum, henough⟩ := hcheck
  rw [drawn_of_costSum hsum]
  exact not_lt.mp henough

theorem checkPool_of_checkCosts {definition : CombatDefinition}
    (hcheck : checkCosts definition combatant costs = .ok ()) {cost : Ulid × ℕ}
    (hcost : cost ∈ costs) : checkPool combatant costs cost.1 = .ok () := by
  obtain ⟨⟨⟩, htemplates, hunknown⟩ := Result.bind_eq_ok_iff.mp hcheck
  rw [Result.forM_eq_ok_iff] at htemplates hunknown
  by_cases hlisted : ∃ template ∈ definition.pools, template.id = cost.1
  · obtain ⟨template, htemplate, hid⟩ := hlisted
    have hchecked := htemplates template htemplate
    rw [if_pos (List.any_eq_true.mpr ⟨cost, hcost, by simp [hid]⟩), hid] at hchecked
    exact hchecked
  · refine hunknown cost.1 ?_
    rw [unknownPools, List.mem_eraseDups, List.mem_filter]
    refine ⟨mem_map_of_mem hcost, ?_⟩
    rw [Bool.not_eq_true', List.any_eq_false]
    intro template htemplate hid
    exact hlisted ⟨template, htemplate, by simpa using hid⟩

/-- What is affordable is paid. Assumes: pools of distinct identities and positive costs. -/
theorem affordable {definition : CombatDefinition}
    (hnodup : (combatant.pools.map ResourcePool.id).Nodup) (hpositive : ∀ cost ∈ costs, 0 < cost.2)
    (hcheck : checkCosts definition combatant costs = .ok ()) :
    Result.foldlM spendCost combatant costs = .ok (combatant.charge (drawn costs)) ∧
      ∀ pool ∈ combatant.pools, drawn costs pool.id ≤ pool.current := by
  have hcover : ∀ pool ∈ combatant.pools, drawn costs pool.id ≤ pool.current := by
    intro pool hpool
    by_cases hnamed : ∃ cost ∈ costs, cost.1 = pool.id
    · obtain ⟨cost, hcost, hid⟩ := hnamed
      have hle := drawn_le_of_checkPool (checkPool_of_checkCosts hcheck hcost)
      rw [hid, Combatant.poolBalance_eq hnodup hpool] at hle
      exact hle
    · have hnone : (costs.filter fun cost ↦ cost.1 = pool.id) = [] := by
        rw [List.filter_eq_nil_iff]
        intro cost hcost hid
        exact hnamed ⟨cost, hcost, by simpa using hid⟩
      unfold drawn
      rw [hnone]
      exact Nat.zero_le _
  refine ⟨foldlM_spendCost hnodup (fun cost hcost ↦ ?_) hcover, hcover⟩
  -- A positive cost is not covered by a pool that is not there.
  have hle := drawn_le_of_checkPool (checkPool_of_checkCosts hcheck hcost)
  have hamount : cost.2 ≤ drawn costs cost.1 :=
    List.le_sum_of_mem (mem_map_of_mem (List.mem_filter.mpr ⟨hcost, by simp⟩))
  have hbalance : poolBalance combatant cost.1 ≠ none := by
    intro hnone
    rw [hnone] at hle
    have hzero := hpositive cost hcost
    simp only [Option.getD_none] at hle
    omega
  obtain ⟨current, hcurrent⟩ := Option.ne_none_iff_exists'.mp hbalance
  exact Combatant.exists_of_poolBalance hcurrent

end Crpg.Sim
