import Crpg.Core.Arena
import Crpg.Core.Fixed
import Crpg.Rules.Error

/-!
# Resource pools

`crpg-rules/src/resource.rs`. A pool carries the two facts its constructor checks: the balance never
exceeds the maximum, and a tick period is not zero. Spending more than the balance fails, and a
matching refresh refills to the maximum or by the refill amount.
-/

set_option autoImplicit false

namespace Crpg.Rules

open Crpg.Core

/-- When a pool refills. -/
inductive RefreshTrigger
  | onTurnStart
  | onRoundStart
  | onRest (rest : Ulid)
  | onTick (period : ℕ)
  | never
deriving DecidableEq

inductive RefreshEvent
  | turnStart
  | roundStart
  | rest (rest : Ulid)
  | tick (count : ℕ)
deriving DecidableEq

structure ResourcePool where
  id : Ulid
  max : ℕ
  current : ℕ
  refreshTrigger : RefreshTrigger
  refill : Option ℕ
  current_le : current ≤ max
  period_ne : refreshTrigger ≠ .onTick 0
deriving DecidableEq

namespace ResourcePool

/-- Builds a pool with an optional refill amount. -/
def withRefill (id : Ulid) (max current : ℕ) (refresh : RefreshTrigger) (refill : Option ℕ) :
    Except RulesError ResourcePool :=
  if hcurrent : current > max then .error (.at .invalidResource "/resource/current")
  else if hperiod : refresh = .onTick 0 then .error (.at .invalidResource "/resource/refresh")
  else .ok ⟨id, max, current, refresh, refill, Nat.le_of_not_lt hcurrent, hperiod⟩

def new (id : Ulid) (max current : ℕ) (refresh : RefreshTrigger) : Except RulesError ResourcePool :=
  withRefill id max current refresh none

theorem sub_le_max (pool : ResourcePool) (amount : ℕ) : pool.current - amount ≤ pool.max :=
  (Nat.sub_le _ _).trans pool.current_le

def spend (pool : ResourcePool) (amount : ℕ) : Except RulesError ResourcePool :=
  if amount > pool.current then .error (.at .insufficientResource "/resource/amount")
  else .ok { pool with
    current := pool.current - amount
    current_le := pool.sub_le_max amount }

def matched : RefreshTrigger → RefreshEvent → Bool
  | .onTurnStart, .turnStart => true
  | .onRoundStart, .roundStart => true
  | .onRest expected, .rest actual => expected = actual
  | .onTick period, .tick count => 0 < count ∧ count % period = 0
  | _, _ => false

/-- The balance after a matching refresh. -/
def refilled (pool : ResourcePool) : ℕ :=
  match pool.refill with
  | none => pool.max
  | some amount => min pool.max (saturatingAdd u32Max pool.current amount)

theorem refilled_le (pool : ResourcePool) : pool.refilled ≤ pool.max := by
  unfold refilled
  split
  · exact le_rfl
  · exact Nat.min_le_left _ _

def refresh (pool : ResourcePool) (event : RefreshEvent) : ResourcePool :=
  if matched pool.refreshTrigger event then
    { pool with current := pool.refilled, current_le := pool.refilled_le }
  else pool

@[simp]
theorem refresh_id (pool : ResourcePool) (event : RefreshEvent) :
    (pool.refresh event).id = pool.id := by
  unfold refresh
  split_ifs <;> rfl

end ResourcePool

end Crpg.Rules
