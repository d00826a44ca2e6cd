import Crpg.Sim.Delivery
import Crpg.Sim.Purses

/-!
# What a call does to pools

A delivery changes what the combatants of a world hold pool by pool: each pool it reaches is
replenished once, and no other changes (`Delivery.refill`, `purses_deliver`). After every call of
the controller the pools are those after its spends with the deliveries of its log applied in order
(`Refilled`): nothing but a delivery fills a pool, and none is missing from the log or applied
twice.
-/

set_option autoImplicit false

namespace Crpg.Sim

open Crpg.Core Crpg.Lib Crpg.Rules Crpg.Data
open Result (bind_eq bind_eq_ok_iff bind_ok_iff expect_eq_ok_iff ok_bind pure_eq pure_ok_iff)

/-! ### Purses -/

/-- What a combatant holds. Most deliveries pass over the dead. -/
structure Purse where
  dead : Bool
  pools : List ResourcePool

/-- What the combatants of a world hold. -/
abbrev Purses := EntityId → Option Purse

def Combatant.purse (combatant : Combatant) : Purse := ⟨combatant.dead, combatant.pools⟩

def World.purses (world : World) : Purses :=
  fun id ↦ (world.combatants.get? id).map Combatant.purse

/-- The pool after one matching event. -/
def replenished (pool : ResourcePool) : ResourcePool :=
  { pool with current := pool.refilled, current_le := pool.refilled_le }

/-- Whether a delivery reaches a pool of a combatant: the event fits the trigger, and a tick pool is
reached by an advance over a multiple of its period. -/
def Delivery.Reaches (id : EntityId) (dead : Bool) (pool : ResourcePool) : Delivery → Prop
  | .roundStart => dead = false ∧ pool.refreshTrigger = .onRoundStart
  | .turnStartAll => dead = false ∧ pool.refreshTrigger = .onTurnStart
  | .turnStart other => id = other ∧ pool.refreshTrigger = .onTurnStart
  | .advance old new => dead = false ∧ ∃ period, pool.refreshTrigger = .onTick period ∧
      ∃ boundary, old < boundary ∧ boundary ≤ new ∧ period ∣ boundary

open Classical in
/-- The pools after a delivery: each one it reaches is replenished once. -/
noncomputable def Delivery.refill (delivery : Delivery) (purses : Purses) : Purses := fun id ↦
  (purses id).map fun purse ↦
    { purse with
      pools := purse.pools.map fun pool ↦
        if delivery.Reaches id purse.dead pool then replenished pool else pool }

noncomputable def refills (log : List Delivery) (purses : Purses) : Purses :=
  log.foldl (fun purses delivery ↦ delivery.refill purses) purses

/-- The pools of a world are those of an earlier one with the deliveries of a log applied. -/
def Refilled (before after : World) (log : List Delivery) : Prop :=
  after.purses = refills log before.purses

section Refilled

variable {world mid next : World} {first second log : List Delivery}

/-- Combatants that change one by one, but for their pools. -/
theorem purses_mapValues {transform : EntityId → Combatant → Combatant}
    (hcombatants : next.combatants = world.combatants.mapValues transform)
    (hpurse : ∀ id combatant, (transform id combatant).purse = combatant.purse) :
    next.purses = world.purses := by
  funext id
  unfold World.purses
  rw [hcombatants, IndexMap.get?_mapValues, Option.map_map]
  exact congrArg (Option.map · _) (funext (hpurse id))

theorem purses_expireAll (world : World) (round : ℕ) :
    (world.expireAll round).purses = world.purses :=
  @purses_mapValues world _ (fun _ state ↦ state.expire round) rfl fun _ _ ↦ rfl

theorem purses_modifyOrder (world : World) (id : EntityId) (order : Option StandingOrder) :
    (world.modifyCombatant id fun state ↦ { state with order }).purses = world.purses := by
  funext other
  unfold World.purses
  rw [World.modifyCombatant, IndexMap.get?_modify]
  split_ifs
  · rw [Option.map_map]
    rfl
  · rfl

theorem purses_endTurn (world : World) : (endTurn world).purses = world.purses := by
  unfold endTurn
  split
  · rfl
  · rfl

theorem Refilled.of_eq (hpurses : next.purses = world.purses) : Refilled world next [] := hpurses

theorem Refilled.trans (hfirst : Refilled world mid first) (hsecond : Refilled mid next second) :
    Refilled world next (first ++ second) := by
  unfold Refilled refills at *
  rw [hsecond, hfirst, List.foldl_append]

/-- Worlds with the same pools may stand on either side. -/
theorem Refilled.congr {start final : World} (hrefilled : Refilled start final log)
    (hstart : start.purses = world.purses) (hfinal : next.purses = final.purses) :
    Refilled world next log := by
  unfold Refilled
  rw [hfinal, hrefilled, hstart]

end Refilled

/-! ### One delivery -/

theorem refresh_of_matched {event : RefreshEvent} {trigger : RefreshTrigger}
    (hmatched : ∀ found, ResourcePool.matched found event = true ↔ found = trigger)
    (pool : ResourcePool) : pool.refresh event =
      if pool.refreshTrigger = trigger then replenished pool else pool := by
  simp only [ResourcePool.refresh, hmatched]
  rfl

theorem refresh_turnStart (pool : ResourcePool) : pool.refresh .turnStart =
    if pool.refreshTrigger = .onTurnStart then replenished pool else pool :=
  refresh_of_matched (fun trigger ↦ by cases trigger <;> simp [ResourcePool.matched]) pool

theorem refresh_roundStart (pool : ResourcePool) : pool.refresh .roundStart =
    if pool.refreshTrigger = .onRoundStart then replenished pool else pool :=
  refresh_of_matched (fun trigger ↦ by cases trigger <;> simp [ResourcePool.matched]) pool

/-- An advance crosses a multiple of a period exactly when the quotient grows. -/
theorem div_lt_div_iff_exists_dvd {old new period : ℕ} (hperiod : 0 < period) :
    old / period < new / period ↔
      ∃ boundary, old < boundary ∧ boundary ≤ new ∧ period ∣ boundary := by
  constructor
  · intro hlt
    refine ⟨period * (new / period), ?_, Nat.mul_div_le new period, Nat.dvd_mul_right ..⟩
    rw [mul_comm]
    exact (Nat.div_lt_iff_lt_mul hperiod).mp hlt
  · rintro ⟨boundary, hafter, hwithin, factor, rfl⟩
    have hfactor : factor ≤ new / period := (Nat.le_div_iff_mul_le hperiod).mpr (by rwa [mul_comm])
    refine lt_of_lt_of_le ((Nat.div_lt_iff_lt_mul hperiod).mpr ?_) hfactor
    rwa [mul_comm]

open Classical in
theorem deliverPool_eq (old new : ℕ) (id : EntityId) (pool : ResourcePool) :
    deliverPool old new pool =
      if (Delivery.advance old new).Reaches id false pool then replenished pool else pool := by
  unfold deliverPool
  split
  · next period htrigger =>
    have hperiod : 0 < period := Nat.pos_of_ne_zero fun hzero ↦
      pool.period_ne (hzero ▸ htrigger)
    have hreaches : (Delivery.advance old new).Reaches id false pool ↔
        old / period < new / period := by
      rw [div_lt_div_iff_exists_dvd hperiod]
      refine ⟨fun ⟨_, found, hfound, hcrossed⟩ ↦ ?_,
        fun hcrossed ↦ ⟨rfl, period, htrigger, hcrossed⟩⟩
      cases htrigger.symm.trans hfound
      exact hcrossed
    by_cases hcrossed : old / period < new / period
    · rw [if_pos ⟨hperiod.ne', hcrossed⟩, if_pos (hreaches.mpr hcrossed)]
      have hmatched :
          ResourcePool.matched pool.refreshTrigger (.tick (new - new % period)) = true := by
        have hcount : new - new % period = period * (new / period) := by
          have hsplit := Nat.mod_add_div new period
          omega
        have hpositive : 0 < period * (new / period) :=
          Nat.mul_pos hperiod (lt_of_le_of_lt (Nat.zero_le _) hcrossed)
        rw [htrigger, hcount]
        simpa [ResourcePool.matched] using hpositive
      rw [ResourcePool.refresh, if_pos hmatched]
      rfl
    · rw [if_neg fun hboth ↦ hcrossed hboth.2, if_neg fun hreached ↦ hcrossed (hreaches.mp hreached)]
  · next hother =>
    rw [if_neg]
    rintro ⟨-, period, htrigger, -⟩
    exact hother period htrigger

open Classical in
/-- A pass over those alive. -/
theorem purses_mapAlive (delivery : Delivery) (world : World) {transform : Combatant → Combatant}
    (refresh : ResourcePool → ResourcePool)
    (htransform : ∀ combatant, (transform combatant).purse =
      ⟨combatant.dead, combatant.pools.map refresh⟩)
    (hrefresh : ∀ id pool, refresh pool =
      if delivery.Reaches id false pool then replenished pool else pool)
    (hdead : ∀ id pool, ¬delivery.Reaches id true pool) :
    (world.mapAlive transform).purses = delivery.refill world.purses := by
  funext id
  unfold World.purses World.mapAlive Delivery.refill
  rw [IndexMap.get?_mapValues, Option.map_map, Option.map_map]
  refine congrArg (Option.map · _) (funext fun combatant ↦ ?_)
  dsimp only [Function.comp_apply]
  by_cases hcase : combatant.dead = true
  · rw [if_pos hcase]
    simp only [Combatant.purse, hcase, hdead, if_false, List.map_id']
  · rw [if_neg hcase, htransform]
    rw [Bool.not_eq_true] at hcase
    simp only [Combatant.purse, hcase, ← hrefresh id]

theorem purses_deliver (delivery : Delivery) (world : World) :
    (delivery.deliver world).purses = delivery.refill world.purses := by
  cases delivery with
  | roundStart =>
    refine purses_mapAlive _ world (fun pool ↦ pool.refresh .roundStart) (fun _ ↦ rfl)
      (fun id pool ↦ ?_) fun _ _ h ↦ Bool.noConfusion h.1
    simp [refresh_roundStart, Delivery.Reaches]
  | turnStartAll =>
    refine purses_mapAlive _ world (fun pool ↦ pool.refresh .turnStart) (fun _ ↦ rfl)
      (fun id pool ↦ ?_) fun _ _ h ↦ Bool.noConfusion h.1
    simp [refresh_turnStart, Delivery.Reaches]
  | turnStart other =>
    funext id
    unfold World.purses Delivery.deliver World.modifyCombatant Delivery.refill
    rw [IndexMap.get?_modify]
    split_ifs with hself
    · rw [Option.map_map, Option.map_map]
      refine congrArg (Option.map · _) (funext fun combatant ↦ ?_)
      simp only [Function.comp_apply, Combatant.purse, Delivery.Reaches, hself, true_and,
        ← refresh_turnStart]
      rfl
    · rw [Option.map_map]
      refine congrArg (Option.map · _) (funext fun combatant ↦ ?_)
      simp [Combatant.purse, Delivery.Reaches, hself]
  | advance old new =>
    exact purses_mapAlive _ world (deliverPool old new) (fun _ ↦ rfl)
      (fun id pool ↦ deliverPool_eq old new id pool) fun _ _ h ↦ Bool.noConfusion h.1

theorem Refilled.emit (delivery : Delivery) (world : World) :
    Refilled world (delivery.emit world).2 (delivery.emit world).1 :=
  purses_deliver delivery world

/-! ### Rounds and turns -/

section Calls

variable {world next : World} {log : List Delivery} {facts : TransitionFacts}

theorem tbRoundStartLogged_refilled {turn : EntityId × ℕ}
    (hstart : tbRoundStartLogged world = .ok (log, turn, next)) : Refilled world next log := by
  simp only [tbRoundStartLogged, bind_ok_iff, pure_ok_iff, Prod.mk.injEq] at hstart
  obtain ⟨combat, -, head, -, _, -, rfl, -, rfl⟩ := hstart
  refine (Refilled.emit .roundStart world).trans ?_
  exact (Refilled.emit (.turnStart head) _).congr (purses_expireAll _ _) rfl

theorem rtRoundStartLogged_refilled {round : ℕ}
    (hstart : rtRoundStartLogged world = .ok (log, round, next)) : Refilled world next log := by
  simp only [rtRoundStartLogged, bind_ok_iff, pure_ok_iff, Prod.mk.injEq] at hstart
  obtain ⟨combat, -, rfl, -, rfl⟩ := hstart
  exact ((Refilled.emit .roundStart world).trans (Refilled.emit .turnStartAll _)).congr rfl
    (purses_expireAll _ _)

theorem switchToRealTimeLogged_refilled {round : ℕ}
    (hswitch : switchToRealTimeLogged world = .ok (log, round, next)) : Refilled world next log := by
  simp only [switchToRealTimeLogged, bind_ok_iff] at hswitch
  obtain ⟨_, -, _, -, _, -, hstart⟩ := hswitch
  exact (rtRoundStartLogged_refilled hstart).congr rfl rfl

theorem switchToTurnBasedLogged_refilled {turn : EntityId × ℕ}
    (hswitch : switchToTurnBasedLogged world = .ok (log, turn, next)) :
    Refilled world next log := by
  simp only [switchToTurnBasedLogged, bind_ok_iff] at hswitch
  obtain ⟨_, -, hstart⟩ := hswitch
  exact (tbRoundStartLogged_refilled hstart).congr
    (@purses_mapValues world _ (fun _ state ↦ { state with order := none }) rfl fun _ _ ↦ rfl) rfl

theorem rolloverLogged_refilled (hrollover : rolloverLogged world = .ok (log, facts, next)) :
    Refilled world next log := by
  simp only [rolloverLogged, bind_eq, pure_eq, bind_eq_ok_iff] at hrollover
  obtain ⟨combat, -, hrollover⟩ := hrollover
  split at hrollover
  · split_ifs at hrollover
    · simp only [bind_eq_ok_iff, Result.ok.injEq, Prod.mk.injEq] at hrollover
      obtain ⟨⟨_, _, _⟩, hswitch, rfl, -, rfl⟩ := hrollover
      exact ((Refilled.emit _ _).trans (switchToRealTimeLogged_refilled hswitch)).congr rfl rfl
    · simp only [bind_eq_ok_iff, Result.ok.injEq, Prod.mk.injEq] at hrollover
      obtain ⟨⟨_, _, _⟩, hstart, rfl, -, rfl⟩ := hrollover
      exact ((Refilled.emit _ _).trans (tbRoundStartLogged_refilled hstart)).congr rfl rfl
  · simp only [bind_eq_ok_iff, Result.ok.injEq, Prod.mk.injEq] at hrollover
    obtain ⟨⟨_, _, _⟩, hstart, rfl, -, rfl⟩ := hrollover
    exact tbRoundStartLogged_refilled hstart

theorem advanceTrackedLogged_refilled
    (hadvance : advanceTrackedLogged world = .ok (log, facts, next)) : Refilled world next log := by
  unfold advanceTrackedLogged at hadvance
  split_ifs at hadvance
  · exact rolloverLogged_refilled hadvance
  · simp only [nextTurnLogged, bind_ok_iff, pure_ok_iff, Prod.mk.injEq] at hadvance
    obtain ⟨head, -, _, -, _, -, rfl, -, rfl⟩ := hadvance
    exact (Refilled.emit (.turnStart head) world).congr rfl rfl
  · simp only [silent, terminate, Result.bind_assoc, ok_bind, bind_eq_ok_iff, Result.ok.injEq,
      Prod.mk.injEq] at hadvance
    obtain ⟨_, -, rfl, -, rfl⟩ := hadvance
    exact .of_eq rfl

/-! ### Actions -/

theorem settleUseLogged_refilled {actor : EntityId} {ability : Ulid}
    (hsettle : settleUseLogged world actor ability = .ok (log, facts, next)) :
    Refilled world next log := by
  simp only [settleUseLogged, bind_eq, pure_eq, bind_eq_ok_iff] at hsettle
  obtain ⟨_, -, _, -, hsettle⟩ := hsettle
  have hended := purses_endTurn (unscheduleDead world)
  split_ifs at hsettle
  · cases hsettle
    exact .of_eq hended
  · cases hsettle
    exact .of_eq rfl
  · exact (advanceTrackedLogged_refilled hsettle).congr rfl rfl
  · exact (advanceTrackedLogged_refilled hsettle).congr hended rfl
  · cases hsettle
    exact .of_eq rfl

/-- The world after the spends of an action: only a turn-based use is resolved at once. -/
def resolvedUse (world : World) : CombatAction → World
  | .useAbility actor ability target =>
    match world.combat.map CombatState.mode, resolveUse world actor ability target with
    | some .turnBased, .ok resolved => resolved.2
    | _, _ => world
  | _ => world

theorem resolvedUse_charged (world : World) (action : CombatAction) :
    ChargedPurses world.combatants (resolvedUse world action).combatants := by
  unfold resolvedUse
  split
  · split
    · next hresolve => exact resolveUse_charged hresolve
    · exact (EqualPurses.refl _).charged
  · exact (EqualPurses.refl _).charged

theorem performActionLogged_refilled {action : CombatAction}
    {facts : Option ActionOutcome × TransitionFacts}
    (hperform : performActionLogged world action = .ok (log, facts, next)) :
    Refilled (resolvedUse world action) next log := by
  simp only [performActionLogged, bind_eq, bind_eq_ok_iff] at hperform
  obtain ⟨_, -, hperform⟩ := hperform
  cases action with
  | stop actor =>
    simp only [pure_eq, bind_eq_ok_iff, Result.ok.injEq, Prod.mk.injEq] at hperform
    obtain ⟨_, -, rfl, -, rfl⟩ := hperform
    exact .of_eq (purses_modifyOrder ..)
  | endTurn actor =>
    simp only [pure_eq, bind_eq_ok_iff, Result.ok.injEq, Prod.mk.injEq] at hperform
    obtain ⟨⟨_, _, _⟩, hadvance, rfl, -, rfl⟩ := hperform
    exact (advanceTrackedLogged_refilled hadvance).congr (purses_endTurn _) rfl
  | useAbility actor ability target =>
    simp only [bind_eq_ok_iff, expect_eq_ok_iff] at hperform
    obtain ⟨combat, hcombat, hperform⟩ := hperform
    split at hperform
    · next hmode =>
      simp only [pure_eq, bind_eq_ok_iff, Result.ok.injEq, Prod.mk.injEq] at hperform
      obtain ⟨_, -, _, -, rfl, -, rfl⟩ := hperform
      rw [resolvedUse, hcombat, Option.map_some, hmode]
      exact .of_eq (purses_modifyOrder ..)
    · next hmode =>
      simp only [pure_eq, bind_eq_ok_iff, Result.ok.injEq, Prod.mk.injEq] at hperform
      obtain ⟨resolved, hresolve, ⟨_, _, _⟩, hsettle, rfl, -, rfl⟩ := hperform
      rw [resolvedUse, hcombat, Option.map_some, hmode, hresolve]
      exact settleUseLogged_refilled hsettle

/-! ### Ticks -/

theorem roundBoundaryLogged_refilled
    (hboundary : roundBoundaryLogged world = .ok (log, facts, next)) : Refilled world next log := by
  simp only [roundBoundaryLogged, bind_eq, pure_eq, bind_eq_ok_iff] at hboundary
  obtain ⟨_, -, hboundary⟩ := hboundary
  split_ifs at hboundary
  · simp only [bind_eq_ok_iff, Result.ok.injEq, Prod.mk.injEq] at hboundary
    obtain ⟨⟨_, _, _⟩, hswitch, rfl, -, rfl⟩ := hboundary
    exact (switchToTurnBasedLogged_refilled hswitch).congr rfl rfl
  · simp only [bind_eq_ok_iff, Result.ok.injEq, Prod.mk.injEq] at hboundary
    obtain ⟨⟨_, _, _⟩, hstart, rfl, -, rfl⟩ := hboundary
    exact (rtRoundStartLogged_refilled hstart).congr rfl rfl

theorem clockStageLogged_refilled (hstage : clockStageLogged world = .ok (log, facts, next)) :
    Refilled world next log := by
  unfold clockStageLogged at hstage
  split at hstage
  · simp only [bind_eq, pure_eq, bind_eq_ok_iff] at hstage
    obtain ⟨_, -, clock, -, hstage⟩ := hstage
    split_ifs at hstage
    · cases hstage
      exact .of_eq rfl
    · obtain ⟨_, -, hstage⟩ := bind_eq_ok_iff.mp hstage
      cases hstage
      exact (Refilled.emit _ _).congr rfl rfl
    · simp only [bind_eq_ok_iff, Result.ok.injEq, Prod.mk.injEq] at hstage
      obtain ⟨_, -, ⟨_, _, _⟩, hboundary, rfl, -, rfl⟩ := hstage
      exact ((Refilled.emit _ _).trans (roundBoundaryLogged_refilled hboundary)).congr rfl rfl
  · cases hstage
    exact .of_eq rfl

theorem executeOrder_charged {elapsed roundTicks : ℕ} {actor : EntityId} {order : StandingOrder}
    {event : TickEvent}
    (hexecute : executeOrder elapsed roundTicks world actor order = .ok (event, next)) :
    ChargedPurses world.combatants next.combatants := by
  have hordered (world : World) : ChargedPurses world.combatants
      (world.modifyCombatant actor fun state ↦ { state with order := none }).combatants :=
    (@equalPurses_modify world actor (fun state ↦ { state with order := none }) fun _ ↦ rfl).charged
  unfold executeOrder at hexecute
  split at hexecute
  · cases hexecute
  · cases hexecute
    exact hordered world
  · simp only [bind_ok_iff, pure_ok_iff, Prod.mk.injEq] at hexecute
    obtain ⟨_, -, _, -, ⟨_, resolved⟩, hresolve, rekeyed, hrekey, -, rfl⟩ := hexecute
    have hburied : EqualPurses resolved.combatants (buryDead resolved).combatants := by
      refine IndexMap.Rel.mapValues _ fun _ combatant ↦ ?_
      split_ifs
      · rfl
      · rfl
    refine (resolveUse_charged hresolve).trans (hburied.charged.trans ?_)
    unfold rekeyActor at hrekey
    split at hrekey
    · obtain ⟨_, -, hnext⟩ := bind_eq_ok_iff.mp hrekey
      dsimp only at hnext
      split_ifs at hnext
      · cases hnext
        exact (EqualPurses.refl _).charged
      · cases hnext
        exact hordered { buryDead resolved with timeline := _ }
    · cases hrekey
      exact (EqualPurses.refl _).charged

/-- A tick delivers first; the orders it then runs only spend. -/
theorem tickLogged_refilled {facts : TickFacts} (htick : tickLogged world = .ok (log, facts, next)) :
    ∃ clocked staged, clockStage world.advanceTick = .ok (clocked, staged) ∧
      Refilled world staged log ∧ executionStage staged clocked = .ok (facts, next) ∧
      ChargedPurses staged.combatants next.combatants := by
  obtain ⟨⟨_, clocked, staged⟩, hstage, hexecute⟩ := bind_eq_ok_iff.mp htick
  simp only [bind_eq_ok_iff, Result.ok.injEq, Prod.mk.injEq] at hexecute
  obtain ⟨⟨_, _⟩, hexecuted, rfl, rfl, rfl⟩ := hexecute
  refine ⟨clocked, staged, ?_, (clockStageLogged_refilled hstage).congr rfl rfl, hexecuted, ?_⟩
  · rw [← erased_clockStageLogged, hstage]
    rfl
  · refine (executionStage_induct (motive := fun _ state ↦ ChargedPurses staged.combatants
      state.combatants) (EqualPurses.refl _).charged ?_ hexecuted).1
    intro _ _ _ state after actor order event hstate _ _ hafter
    exact hstate.trans (executeOrder_charged hafter)

/-! ### Leaving and entering -/

/-- The world without an entity, before its encounter is settled. -/
def withdrawn (world : World) (id : EntityId) : World :=
  match world.entities.remove id with
  | (some _, entities) => strip world entities id
  | (none, _) => world

theorem despawnLogged_refilled {id : EntityId} {facts : Bool × TransitionFacts}
    (hdespawn : despawnLogged world id = .ok (log, facts, next)) :
    Refilled (withdrawn world id) next log := by
  unfold despawnLogged at hdespawn
  unfold withdrawn
  generalize world.entities.remove id = removed at hdespawn ⊢
  obtain ⟨_ | _, entities⟩ := removed
  · cases hdespawn
    exact .of_eq rfl
  · obtain ⟨⟨_, _, settled⟩, hsettle, hnext⟩ := bind_eq_ok_iff.mp hdespawn
    simp only [Result.ok.injEq, Prod.mk.injEq] at hnext
    obtain ⟨rfl, -, rfl⟩ := hnext
    unfold settleDespawnLogged at hsettle
    split_ifs at hsettle
    · cases hsettle
      exact .of_eq rfl
    · exact (advanceTrackedLogged_refilled hsettle).congr rfl rfl
    · cases hsettle
      exact .of_eq rfl

theorem startEncounterInModeLogged_refilled {spec : EncounterSpec} {mode : EncounterMode}
    {facts : StartFacts}
    (hstart : startEncounterInModeLogged world spec mode = .ok (log, facts, next)) :
    ∃ entered, published world spec mode = .ok entered ∧ Refilled entered.2 next log := by
  simp only [startEncounterInModeLogged, bind_ok_iff, pure_ok_iff, Prod.mk.injEq] at hstart
  obtain ⟨entered, hentered, ⟨_, _, _⟩, hfirst, rfl, -, rfl⟩ := hstart
  refine ⟨entered, hentered, ?_⟩
  unfold firstTurnLogged at hfirst
  split at hfirst
  · cases hfirst
    exact .of_eq rfl
  · split at hfirst
    · cases hfirst
      exact .of_eq rfl
    · obtain ⟨_, -, hnext⟩ := bind_eq_ok_iff.mp hfirst
      cases hnext
      exact (Refilled.emit _ _).congr rfl rfl

end Calls

end Crpg.Sim
