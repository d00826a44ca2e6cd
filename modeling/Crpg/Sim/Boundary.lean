import Crpg.Sim.ScheduleInvariant

/-!
# Passes of the controller

Between resolutions the controller changes pools, attachments, orders, the timeline and the state of
the encounter, and nothing else of a world (`Passed`). An accepted action is such a pass, or one
resolution and then a pass (`performActionTracked_cases`); so is a due order (`executeOrder_cases`),
and the execution stage is a run of due orders (`executionStage_induct`). What later modules say of
actions and ticks is read off these.

A pass is strict when the dead keep their pools. Rounds and turns are strict when only the living
are scheduled.
-/

set_option autoImplicit false

namespace Crpg.Sim

open Crpg.Core Crpg.Lib Crpg.Rules Crpg.Data
open Result (bind_eq_ok_iff bind_ok_iff expect_eq_ok_iff pure_eq pure_ok_iff)

/-! ### The identities of pools -/

def Combatant.pools (combatant : Combatant) : List ResourcePool :=
  combatant.actionPool :: combatant.extraPools

/-- A combatant whose pools have the identities of another's. -/
def Combatant.SamePools (before after : Combatant) : Prop :=
  after.pools.map ResourcePool.id = before.pools.map ResourcePool.id

namespace Combatant

theorem SamePools.refl (combatant : Combatant) : SamePools combatant combatant := rfl

theorem SamePools.trans {first second third : Combatant} (hfirst : SamePools first second)
    (hsecond : SamePools second third) : SamePools first third :=
  Eq.trans hsecond hfirst

theorem samePools_map (combatant : Combatant) {transform : ResourcePool → ResourcePool}
    (hid : ∀ pool, (transform pool).id = pool.id) {after : Combatant}
    (hafter : after.pools = combatant.pools.map transform) : SamePools combatant after := by
  unfold SamePools
  rw [hafter, List.map_map]
  exact List.map_congr_left fun pool _ ↦ hid pool

theorem samePools_refresh (combatant : Combatant) (event : RefreshEvent) :
    SamePools combatant (combatant.refresh event) :=
  combatant.samePools_map (fun pool ↦ pool.refresh_id event) rfl

end Combatant

theorem deliverPool_id (old new : ℕ) (pool : ResourcePool) :
    (deliverPool old new pool).id = pool.id := by
  unfold deliverPool
  split
  · split_ifs
    · exact pool.refresh_id _
    · rfl
  · rfl

/-! ### Combatants -/

/-- What a pass leaves of a combatant: who it is, its health, and the identities of its pools. In a
strict pass the dead keep their pools. -/
structure Combatant.Passes (strict : Prop) (before after : Combatant) : Prop where
  placement : after.placement = before.placement
  maxHealth : after.maxHealth = before.maxHealth
  entered : after.entered = before.entered
  health : after.health = before.health
  alive : after.dead = before.dead
  purse : Combatant.SamePools before after
  dead : strict → before.dead = true →
    after.actionPool = before.actionPool ∧ after.extraPools = before.extraPools

namespace Combatant

variable {strict : Prop} {first second third : Combatant}

theorem Passes.refl (combatant : Combatant) : Passes strict combatant combatant :=
  ⟨rfl, rfl, rfl, rfl, rfl, rfl, fun _ _ ↦ ⟨rfl, rfl⟩⟩

theorem Passes.trans (hfirst : Passes strict first second) (hsecond : Passes strict second third) :
    Passes strict first third where
  placement := hsecond.placement.trans hfirst.placement
  maxHealth := hsecond.maxHealth.trans hfirst.maxHealth
  entered := hsecond.entered.trans hfirst.entered
  health := hsecond.health.trans hfirst.health
  alive := hsecond.alive.trans hfirst.alive
  purse := hfirst.purse.trans hsecond.purse
  dead := by
    intro hstrict hdead
    obtain ⟨haction, hextra⟩ := hfirst.dead hstrict hdead
    obtain ⟨haction', hextra'⟩ := hsecond.dead hstrict (hfirst.alive.trans hdead)
    exact ⟨haction'.trans haction, hextra'.trans hextra⟩

/-- Another order and other attachments. -/
theorem passes_order (combatant : Combatant) (order : Option StandingOrder)
    (attached : List AttachedEffect) :
    Passes strict combatant { combatant with order := order, attached := attached } :=
  ⟨rfl, rfl, rfl, rfl, rfl, rfl, fun _ _ ↦ ⟨rfl, rfl⟩⟩

/-- Other pools of the same identities. Assumes: the combatant lives when the pass is strict. -/
theorem passes_pools {combatant : Combatant} {actionPool : ResourcePool}
    {extraPools : List ResourcePool} (halive : strict → combatant.dead = false)
    (hsame : SamePools combatant
      { combatant with actionPool := actionPool, extraPools := extraPools }) :
    Passes strict combatant
      { combatant with actionPool := actionPool, extraPools := extraPools } :=
  ⟨rfl, rfl, rfl, rfl, rfl, hsame, fun hstrict hdead ↦
    absurd (hdead.symm.trans (halive hstrict)) (by decide)⟩

theorem passes_refresh (combatant : Combatant) (halive : strict → combatant.dead = false)
    (event : RefreshEvent) : Passes strict combatant (combatant.refresh event) :=
  passes_pools halive (combatant.samePools_refresh event)

end Combatant

/-! ### Worlds -/

/-- The rules of an encounter, which stay while it runs. -/
def CombatState.rules (combat : CombatState) : CombatDefinition × Lifecycle :=
  (combat.definition, combat.lifecycle)

/-- What a pass leaves of a world. -/
structure Passed (strict : Prop) (before after : World) : Prop where
  frame : ∃ timeline combatants combat, after = { before with
    timeline := timeline
    combatants := combatants
    combat := combat }
  rules : after.combat.map CombatState.rules = before.combat.map CombatState.rules
  combatants : IndexMap.Rel (Combatant.Passes strict) before.combatants after.combatants

def TurnKnown (world : World) (facts : TransitionFacts) : Prop :=
  ∀ turn, facts.turnStarted = some turn → turn.1 ∈ world.combatants.keys

variable {world next : World}

theorem rules_of_combat {combat changed : CombatState} (hcombat : world.combat = some combat)
    (hrules : changed.rules = combat.rules) :
    (some changed).map CombatState.rules = world.combat.map CombatState.rules := by
  rw [hcombat, Option.map_some, Option.map_some, hrules]

namespace Passed

variable {strict : Prop} {first second third world : World} {id : EntityId}

theorem refl (world : World) : Passed strict world world :=
  ⟨⟨_, _, _, rfl⟩, rfl, IndexMap.Rel.refl Combatant.Passes.refl _⟩

theorem trans (hfirst : Passed strict first second) (hsecond : Passed strict second third) :
    Passed strict first third := by
  refine ⟨?_, hsecond.rules.trans hfirst.rules,
    IndexMap.Rel.trans (fun _ _ _ ↦ Combatant.Passes.trans) hfirst.combatants hsecond.combatants⟩
  obtain ⟨_, _, _, rfl⟩ := hfirst.frame
  obtain ⟨_, _, _, rfl⟩ := hsecond.frame
  exact ⟨_, _, _, rfl⟩

/-- Another timeline and another state of the encounter under its rules. -/
theorem settles (hpassed : Passed strict first second)
    (hframe : ∃ timeline combat, third = { second with timeline := timeline, combat := combat })
    (hrules : third.combat.map CombatState.rules = first.combat.map CombatState.rules) :
    Passed strict first third := by
  obtain ⟨_, _, rfl⟩ := hframe
  refine ⟨?_, hrules, hpassed.combatants⟩
  obtain ⟨_, _, _, rfl⟩ := hpassed.frame
  exact ⟨_, _, _, rfl⟩

theorem timeline (world : World) (timeline : Timeline) :
    Passed strict world { world with timeline := timeline } :=
  (refl world).settles ⟨_, _, rfl⟩ rfl

theorem combat {before changed : CombatState} (hcombat : world.combat = some before)
    (hrules : changed.rules = before.rules) :
    Passed strict world { world with combat := some changed } :=
  (refl world).settles ⟨_, _, rfl⟩ (rules_of_combat hcombat hrules)

theorem store {combatants : ComponentStore Combatant}
    (hrel : IndexMap.Rel (Combatant.Passes strict) world.combatants combatants) :
    Passed strict world { world with combatants := combatants } :=
  ⟨⟨_, _, _, rfl⟩, rfl, hrel⟩

theorem mapAlive (world : World) {transform : Combatant → Combatant}
    (hpasses : ∀ combatant : Combatant, combatant.dead = false →
      Combatant.Passes strict combatant (transform combatant)) :
    Passed strict world (world.mapAlive transform) := by
  refine store (IndexMap.Rel.mapValues _ fun _ combatant ↦ ?_)
  split_ifs with hdead
  · exact Combatant.Passes.refl combatant
  · exact hpasses combatant (Bool.eq_false_iff.mpr hdead)

theorem expireAll (world : World) (round : ℕ) : Passed strict world (world.expireAll round) :=
  store (IndexMap.Rel.mapValues _ fun _ combatant ↦ combatant.passes_order combatant.order _)

theorem refreshOne (hliving : strict → Living world.combatants id) (event : RefreshEvent) :
    Passed strict world (world.modifyCombatant id fun state ↦ state.refresh event) := by
  refine store (IndexMap.Rel.modify Combatant.Passes.refl _ fun combatant hget ↦ ?_)
  refine combatant.passes_refresh (fun hstrict ↦ ?_) event
  obtain ⟨found, hfound, halive⟩ := hliving hstrict
  rw [hget, Option.some.injEq] at hfound
  exact hfound ▸ halive

theorem deliverClockAdvance (world : World) (old new : ℕ) :
    Passed strict world (deliverClockAdvance world old new) :=
  mapAlive world fun combatant halive ↦ Combatant.passes_pools (fun _ ↦ halive)
    (combatant.samePools_map (deliverPool_id old new) rfl)

theorem modifyOrder (world : World) (id : EntityId) (order : Option StandingOrder) :
    Passed strict world (world.modifyCombatant id fun state ↦ { state with order := order }) :=
  store (IndexMap.Rel.modify Combatant.Passes.refl _ fun combatant _ ↦
    combatant.passes_order order combatant.attached)

theorem keys (hpassed : Passed strict first second) :
    second.combatants.keys = first.combatants.keys :=
  hpassed.combatants.keys_eq

theorem living_iff (hpassed : Passed strict first second) :
    Living second.combatants id ↔ Living first.combatants id := by
  constructor
  · rintro ⟨combatant, hget, halive⟩
    obtain ⟨old, hold, hpasses⟩ := hpassed.combatants.get?_eq_some hget
    exact ⟨old, hold, hpasses.alive.symm.trans halive⟩
  · rintro ⟨combatant, hget, halive⟩
    obtain ⟨new, hnew, hpasses⟩ := hpassed.combatants.get?_eq_some' hget
    exact ⟨new, hnew, hpasses.alive.trans halive⟩

theorem scheduledLiving (hpassed : Passed strict first second) {timeline : Timeline}
    (hliving : strict → ScheduledLiving timeline first.combatants) :
    strict → ScheduledLiving timeline second.combatants :=
  fun hstrict slot hslot ↦ hpassed.living_iff.mpr (hliving hstrict slot hslot)

end Passed

/-! ### Idle real-time play -/

/-- In real-time play nobody holds a turn. -/
def World.Idle (world : World) : Prop :=
  ∀ combat, world.combat = some combat → combat.mode = .realTime → combat.active = none

def World.TakesTurns (world : World) : Prop :=
  ∀ combat, world.combat = some combat → combat.mode = .turnBased

theorem World.TakesTurns.congr (hturns : world.TakesTurns) (hsame : next.combat = world.combat) :
    next.TakesTurns :=
  fun combat hcombat ↦ hturns combat (hsame.symm.trans hcombat)

theorem World.Idle.congr (hidle : world.Idle) (hsame : next.combat = world.combat) : next.Idle :=
  fun combat hcombat ↦ hidle combat (hsame.symm.trans hcombat)

theorem World.idle_some {combat : CombatState} (hcombat : world.combat = some combat)
    (hidle : combat.mode = .realTime → combat.active = none) : world.Idle := by
  intro other hother
  rw [hcombat, Option.some.injEq] at hother
  rw [← hother]
  exact hidle

/-- An encounter with the same mode and the same turn. -/
theorem World.Idle.keeps {before after : CombatState} (hidle : world.Idle)
    (hcombat : world.combat = some before) (hnext : next.combat = some after)
    (hmode : after.mode = before.mode) (hactive : after.active = before.active) : next.Idle := by
  refine World.idle_some hnext fun hreal ↦ ?_
  rw [hactive]
  exact hidle before hcombat (hmode.symm.trans hreal)

theorem World.idle_none (hcombat : world.combat = none) : world.Idle :=
  fun _ hsome ↦ nomatch hcombat.symm.trans hsome

/-- Turn-based play leaves real-time play idle. -/
theorem World.TakesTurns.idle {before after : CombatState} (hturns : world.TakesTurns)
    (hcombat : world.combat = some before) (hnext : next.combat = some after)
    (hmode : after.mode = before.mode) : next.Idle :=
  World.idle_some hnext fun hreal ↦
    nomatch (hturns before hcombat).symm.trans (hmode.symm.trans hreal)

/-! ### Transitions -/

/-- A transition: a pass that leaves real-time play idle under a condition. The turn it starts
belongs to a combatant, and it starts a turn or ends the encounter, not both. -/
structure Transits (strict quiet : Prop) (world next : World) (facts : TransitionFacts) :
    Prop where
  passed : Passed strict world next
  turn : TurnKnown world facts
  idle : quiet → next.Idle
  single : facts.turnStarted = none ∨ facts.encounterEnded = none

namespace Transits

variable {strict quiet before : Prop} {first second third world next : World}
  {facts : TransitionFacts}

theorem of_turn {turn : EntityId × ℕ} (hpassed : Passed strict world next)
    (hknown : turn.1 ∈ world.combatants.keys) (hidle : quiet → next.Idle)
    (hturn : facts.turnStarted = some turn) (hended : facts.encounterEnded = none) :
    Transits strict quiet world next facts where
  passed := hpassed
  turn := fun _ hsome ↦ Option.some.inj (hturn.symm.trans hsome) ▸ hknown
  idle := hidle
  single := Or.inr hended

theorem of_none (hpassed : Passed strict world next) (hidle : quiet → next.Idle)
    (hnone : facts.turnStarted = none) : Transits strict quiet world next facts where
  passed := hpassed
  turn := fun _ hsome ↦ nomatch hnone.symm.trans hsome
  idle := hidle
  single := Or.inl hnone

theorem after (hpassed : Passed strict first second) (hquiet : before → quiet)
    (htransits : Transits strict quiet second third facts) :
    Transits strict before first third facts where
  passed := hpassed.trans htransits.passed
  turn := fun turn hturn ↦ hpassed.keys ▸ htransits.turn turn hturn
  idle := fun hbefore ↦ htransits.idle (hquiet hbefore)
  single := htransits.single

end Transits

/-! ### Rounds and turns -/

section Rounds

variable {strict : Prop} {world next : World} {facts : TransitionFacts}
  (hliving : strict → ScheduledLiving world.timeline world.combatants)

include hliving

/-- A turn-based round. Assumes: only the living are scheduled when the pass is strict. -/
theorem tbRoundStart_passed {turn : EntityId × ℕ} (hstart : tbRoundStart world = .ok (turn, next)) :
    Passed strict world next ∧ turn.1 ∈ world.combatants.keys ∧ (world.TakesTurns → next.Idle) := by
  simp only [tbRoundStart, bind_ok_iff, pure_ok_iff, expect_eq_ok_iff, Prod.mk.injEq] at hstart
  obtain ⟨combat, hcombat, head, hhead, state, hget, rfl, rfl⟩ := hstart
  generalize saturatingAdd u32Max combat.round 1 = round at hhead hget ⊢
  have hexpired : Passed strict world
      ((world.mapAlive fun state ↦ state.refresh .roundStart).expireAll round) :=
    (Passed.mapAlive world fun state halive ↦ state.passes_refresh (fun _ ↦ halive) _).trans
      (Passed.expireAll _ round)
  have hholder : strict → Living ((world.mapAlive fun state ↦
      state.refresh .roundStart).expireAll round).combatants head := by
    intro hstrict
    obtain ⟨slot, hslot, rfl, -⟩ := Timeline.head?_eq_some_iff.mp hhead
    rcases mem_schedule hslot with ⟨hold, -⟩ | ⟨entry, hentry, rfl⟩
    · exact hexpired.living_iff.mpr (hliving hstrict slot hold)
    · obtain ⟨known, hknown, rfl⟩ := List.mem_map.mp hentry
      exact living_of_mem_filter hknown
  refine ⟨(hexpired.trans (Passed.refreshOne hholder .turnStart)).settles ⟨_, _, rfl⟩
    (rules_of_combat hcombat rfl), ?_, fun hturns ↦ hturns.idle hcombat rfl rfl⟩
  rw [← hexpired.keys]
  exact IndexMap.mem_keys_iff.mpr ⟨state, hget⟩

omit hliving in
theorem rtRoundStart_passed {round : ℕ} (hstart : rtRoundStart world = .ok (round, next)) :
    Passed strict world next ∧ (world.Idle → next.Idle) := by
  simp only [rtRoundStart, bind_ok_iff, pure_ok_iff, expect_eq_ok_iff, Prod.mk.injEq] at hstart
  obtain ⟨combat, hcombat, -, rfl⟩ := hstart
  have hrefreshed : Passed strict world (world.mapAlive fun state ↦
      (state.refresh .roundStart).refresh .turnStart) := by
    refine Passed.mapAlive world fun state halive ↦ ?_
    exact (state.passes_refresh (fun _ ↦ halive) .roundStart).trans
      ((state.refresh .roundStart).passes_refresh (fun _ ↦ halive) .turnStart)
  exact ⟨(hrefreshed.trans (Passed.expireAll _ _)).settles ⟨_, _, rfl⟩
    (rules_of_combat hcombat rfl), fun hidle ↦ hidle.keeps hcombat rfl rfl rfl⟩

omit hliving in
theorem switchToRealTime_passed {round : ℕ} (hswitch : switchToRealTime world = .ok (round, next)) :
    Passed strict world next ∧ next.Idle := by
  simp only [switchToRealTime, bind_ok_iff, expect_eq_ok_iff] at hswitch
  obtain ⟨combat, hcombat, clock, -, _, -, hstart⟩ := hswitch
  obtain ⟨hstarted, hidle⟩ := rtRoundStart_passed hstart
  refine ⟨Passed.trans ?_ hstarted, hidle (World.idle_some rfl fun _ ↦ rfl)⟩
  exact (Passed.refl world).settles ⟨_, _, rfl⟩ (rules_of_combat hcombat rfl)

theorem switchToTurnBased_passed {turn : EntityId × ℕ}
    (hswitch : switchToTurnBased world = .ok (turn, next)) :
    Passed strict world next ∧ turn.1 ∈ world.combatants.keys ∧ next.Idle := by
  simp only [switchToTurnBased, bind_ok_iff, expect_eq_ok_iff] at hswitch
  obtain ⟨combat, hcombat, hstart⟩ := hswitch
  have hordered : Passed strict world { world with
      combatants := world.combatants.mapValues fun _ state ↦ { state with order := none } } :=
    Passed.store (IndexMap.Rel.mapValues _ fun _ combatant ↦
      combatant.passes_order none combatant.attached)
  have hcleared : Passed strict world { world with
      combatants := world.combatants.mapValues fun _ state ↦ { state with order := none }
      combat := some { combat with mode := .turnBased } } :=
    hordered.settles ⟨_, _, rfl⟩ (rules_of_combat hcombat rfl)
  obtain ⟨hstarted, hturn, hidle⟩ :=
    tbRoundStart_passed (hcleared.scheduledLiving hliving) hstart
  refine ⟨hcleared.trans hstarted, hcleared.keys ▸ hturn, hidle fun other hother ↦ ?_⟩
  rw [← Option.some.inj hother]

theorem rollover_transits (hrollover : rollover world = .ok (facts, next)) :
    Transits strict world.TakesTurns world next facts := by
  simp only [rollover, bind_ok_iff, pure_eq, expect_eq_ok_iff] at hrollover
  obtain ⟨combat, hcombat, hrollover⟩ := hrollover
  split at hrollover
  · next clock hclock =>
    have hadvanced : ∀ changed : CombatState, changed.rules = combat.rules → ∀ new,
        Passed strict world
          (deliverClockAdvance { world with combat := some changed } clock.elapsed new) :=
      fun changed hrules new ↦
        (Passed.combat hcombat hrules).trans (Passed.deliverClockAdvance _ _ _)
    split_ifs at hrollover
    · obtain ⟨_, hswitch, hnext⟩ := bind_eq_ok_iff.mp hrollover
      cases hnext
      obtain ⟨hswitched, hidle⟩ := switchToRealTime_passed hswitch
      refine Transits.of_none (Passed.trans (hadvanced _ ?_ _) hswitched) (fun _ ↦ hidle) rfl
      rfl
    · obtain ⟨⟨turn, after⟩, hstart, hnext⟩ := bind_eq_ok_iff.mp hrollover
      cases hnext
      have hclocked := hadvanced { combat with
        clock := some { clock with
          elapsed := min rtClockMax (saturatingAdd u64Max clock.elapsed clock.roundTicks) }
        pendingMode := none } rfl
      obtain ⟨hstarted, hturn, hidle⟩ :=
        tbRoundStart_passed ((hclocked _).scheduledLiving hliving) hstart
      refine Transits.of_turn ((hclocked _).trans hstarted) ((hclocked _).keys ▸ hturn)
        (fun hturns ↦ hidle fun other hother ↦ ?_) rfl rfl
      rw [← Option.some.inj hother]
      exact hturns combat hcombat
  · obtain ⟨⟨turn, after⟩, hstart, hnext⟩ := bind_eq_ok_iff.mp hrollover
    cases hnext
    obtain ⟨hstarted, hturn, hidle⟩ := tbRoundStart_passed hliving hstart
    exact Transits.of_turn hstarted hturn hidle rfl rfl

theorem advanceTracked_transits (hadvance : advanceTracked world = .ok (facts, next)) :
    Transits strict world.TakesTurns world next facts := by
  unfold advanceTracked at hadvance
  split_ifs at hadvance
  · exact rollover_transits hliving hadvance
  · simp only [nextTurn, bind_ok_iff, pure_ok_iff, expect_eq_ok_iff, Prod.mk.injEq] at hadvance
    obtain ⟨head, hhead, state, hget, combat, hcombat, rfl, rfl⟩ := hadvance
    have hholder : strict → Living world.combatants head := by
      intro hstrict
      obtain ⟨slot, hslot, rfl, -⟩ := Timeline.head?_eq_some_iff.mp hhead
      exact hliving hstrict slot hslot
    exact Transits.of_turn ((Passed.refreshOne hholder .turnStart).settles ⟨_, _, rfl⟩
      (rules_of_combat hcombat rfl)) (IndexMap.mem_keys_iff.mpr ⟨state, hget⟩)
      (fun hturns ↦ hturns.idle hcombat rfl rfl) rfl rfl
  · simp only [terminate, bind_eq_ok_iff, expect_eq_ok_iff, Result.ok.injEq, Prod.mk.injEq]
      at hadvance
    obtain ⟨combat, hcombat, rfl, rfl⟩ := hadvance
    exact Transits.of_none (Passed.combat hcombat rfl) (fun _ ↦ World.idle_some rfl fun _ ↦ rfl) rfl

end Rounds

/-! ### Settling -/

section Settling

variable {strict : Prop} {world next : World} {facts : TransitionFacts} {actor : EntityId}

theorem endTurn_passed (world : World) : Passed strict world (endTurn world) := by
  unfold endTurn
  split
  · exact Passed.timeline world _
  · exact Passed.refl world

theorem endTurn_combat (world : World) : (endTurn world).combat = world.combat := by
  unfold endTurn
  split <;> rfl

theorem scheduledLiving_endTurn (hliving : ScheduledLiving world.timeline world.combatants) :
    ScheduledLiving (endTurn world).timeline (endTurn world).combatants := by
  unfold endTurn
  split
  · exact hliving.remove
  · exact hliving

/-- A use after its resolution. Assumes: only combatants are scheduled when the pass is strict. -/
theorem settleUse_transits {ability : Ulid} (hknown : strict → ∀ slot ∈ world.timeline, ∃ combatant,
      world.combatants.get? slot.entity = some combatant)
    (hsettle : settleUse world actor ability = .ok (facts, next)) :
    Transits strict world.TakesTurns world next facts := by
  simp only [settleUse, bind_ok_iff, pure_eq, expect_eq_ok_iff] at hsettle
  obtain ⟨combat, hcombat, entry, -, hsettle⟩ := hsettle
  have hcleared : Passed strict world (unscheduleDead world) := Passed.timeline world _
  have hliving : strict →
      ScheduledLiving (unscheduleDead world).timeline (unscheduleDead world).combatants :=
    fun hstrict ↦ scheduledLiving_unscheduleDead (hknown hstrict)
  have hpopped := hcleared.trans (endTurn_passed (unscheduleDead world))
  split_ifs at hsettle
  · cases hsettle
    exact Transits.of_none (hpopped.settles ⟨_, _, rfl⟩ (rules_of_combat hcombat rfl))
      (fun _ ↦ World.idle_some rfl fun _ ↦ rfl) rfl
  · cases hsettle
    exact Transits.of_none (hcleared.settles ⟨_, _, rfl⟩ (rules_of_combat hcombat rfl))
      (fun _ ↦ World.idle_some rfl fun _ ↦ rfl) rfl
  · exact Transits.after hcleared (fun hturns ↦ hturns.congr rfl)
      (advanceTracked_transits hliving hsettle)
  · exact Transits.after hpopped (fun hturns ↦ hturns.congr (endTurn_combat (unscheduleDead world)))
      (advanceTracked_transits (fun hstrict ↦ scheduledLiving_endTurn (hliving hstrict)) hsettle)
  · cases hsettle
    exact Transits.of_none (hcleared.settles ⟨_, _, rfl⟩ (rules_of_combat hcombat rfl))
      (fun hturns ↦ hturns.idle hcombat rfl rfl) rfl

theorem buryDead_passed (world : World) : Passed strict world (buryDead world) := by
  have hburied : Passed strict world { world with
      combatants := world.combatants.mapValues fun _ state ↦
        if state.dead then { state with order := none } else state } := by
    refine Passed.store (IndexMap.Rel.mapValues _ fun _ combatant ↦ ?_)
    split_ifs
    · exact combatant.passes_order none combatant.attached
    · exact Combatant.Passes.refl combatant
  exact hburied.settles ⟨_, _, rfl⟩ rfl

theorem rekeyActor_combat {order : StandingOrder} {key : ℕ}
    (hrekey : rekeyActor world actor order key = .ok next) : next.combat = world.combat := by
  unfold rekeyActor at hrekey
  split at hrekey
  · obtain ⟨_, -, hnext⟩ := bind_eq_ok_iff.mp hrekey
    dsimp only at hnext
    split_ifs at hnext
    · cases hnext
      rfl
    · cases hnext
      rfl
  · cases hrekey
    rfl

theorem rekeyActor_passed {order : StandingOrder} {key : ℕ}
    (hrekey : rekeyActor world actor order key = .ok next) : Passed strict world next := by
  unfold rekeyActor at hrekey
  split at hrekey
  · obtain ⟨_, -, hnext⟩ := bind_eq_ok_iff.mp hrekey
    have hkeyed : Passed strict world
        { world with timeline := world.timeline.insert (key : ℤ) actor } :=
      Passed.timeline world _
    dsimp only at hnext
    split_ifs at hnext
    · cases hnext
      exact hkeyed
    · cases hnext
      exact hkeyed.trans (Passed.modifyOrder _ actor none)
  · cases hrekey
    exact Passed.refl world

/-! ### Actions -/

theorem living_of_validateAction {target : EntityId} {ability : Ulid}
    (hvalid : validateAction world (.useAbility actor ability target) = .ok ()) :
    Living world.combatants actor ∧ Living world.combatants target := by
  simp only [validateAction, checkUse, checkPair, bind_ok_iff, pure_eq, expect_eq_ok_iff,
    Result.failIf_eq_ok_iff] at hvalid
  obtain ⟨_, -, _, ⟨_, -, _, -, _, -, _, -, own, hown, other, hother, _, hlives, _, hstands, -⟩,
    -⟩ := hvalid
  exact ⟨⟨own, hown, Bool.eq_false_iff.mpr hlives⟩, other, hother, Bool.eq_false_iff.mpr hstands⟩

/-- A resolution between two living combatants. -/
def Resolves (world : World) (outcome : ActionOutcome) (resolved : World) : Prop :=
  ∃ actor ability target, Living world.combatants actor ∧ Living world.combatants target ∧
    resolveUse world actor ability target = .ok (outcome, resolved)

/-- An accepted action is a pass, or one resolution and then a pass. -/
theorem performActionTracked_cases {action : CombatAction} {produced : Option ActionOutcome}
    (hcoherent : strict → Coherent world)
    (hperform : performActionTracked world action = .ok ((produced, facts), next)) :
    (produced = none ∧ Transits strict world.Idle world next facts) ∨
    ∃ outcome resolved, produced = some outcome ∧ Resolves world outcome resolved ∧
      Transits strict True resolved next facts := by
  simp only [performActionTracked, Result.bind_eq, bind_eq_ok_iff] at hperform
  obtain ⟨_, hvalid, hperform⟩ := hperform
  cases action with
  | stop actor =>
    simp only [pure_eq, bind_eq_ok_iff, Result.ok.injEq, Prod.mk.injEq] at hperform
    obtain ⟨_, -, ⟨rfl, rfl⟩, rfl⟩ := hperform
    exact Or.inl ⟨rfl, Transits.of_none (Passed.modifyOrder world actor none)
      (fun hidle ↦ hidle.congr rfl) rfl⟩
  | endTurn actor =>
    simp only [pure_eq, bind_eq_ok_iff, Result.ok.injEq, Prod.mk.injEq] at hperform
    obtain ⟨⟨_, after⟩, hadvance, ⟨rfl, rfl⟩, rfl⟩ := hperform
    have hcleared : Passed strict world (unscheduleDead world) := Passed.timeline world _
    have hpopped := hcleared.trans (endTurn_passed (unscheduleDead world))
    have hliving : strict → ScheduledLiving (unscheduleDead world).timeline
        (unscheduleDead world).combatants :=
      fun hstrict slot hslot ↦ (hcoherent hstrict).scheduledLiving slot (mem_foldl_remove.mp hslot).1
    have hturns : world.TakesTurns := fun combat hcombat ↦ validateAction_endTurn hcombat hvalid
    have hsame := endTurn_combat (unscheduleDead world)
    exact Or.inl ⟨rfl, Transits.after hpopped (fun _ ↦ hturns.congr hsame)
      (advanceTracked_transits (fun hstrict ↦ scheduledLiving_endTurn (hliving hstrict)) hadvance)⟩
  | useAbility actor ability target =>
    obtain ⟨hactor, htarget⟩ := living_of_validateAction hvalid
    simp only [pure_eq, bind_eq_ok_iff, expect_eq_ok_iff] at hperform
    obtain ⟨combat, hcombat, hperform⟩ := hperform
    split at hperform
    · simp only [bind_eq_ok_iff, Result.ok.injEq, Prod.mk.injEq] at hperform
      obtain ⟨_, -, _, -, ⟨rfl, rfl⟩, rfl⟩ := hperform
      exact Or.inl ⟨rfl, Transits.of_none (Passed.modifyOrder world actor _)
        (fun hidle ↦ hidle.congr rfl) rfl⟩
    · next hmode =>
      simp only [bind_eq_ok_iff, Result.ok.injEq, Prod.mk.injEq] at hperform
      obtain ⟨⟨outcome, resolved⟩, hresolve, ⟨_, after⟩, hsettle, ⟨rfl, rfl⟩, rfl⟩ := hperform
      have hknown : strict → ∀ slot ∈ resolved.timeline, ∃ combatant,
          resolved.combatants.get? slot.entity = some combatant := by
        intro hstrict slot hslot
        obtain ⟨_, _, _, combatants, rfl, hkept, -⟩ := resolveUse_frame hresolve
        obtain ⟨old, hold, -⟩ := (hcoherent hstrict).scheduledLiving slot hslot
        obtain ⟨new, hnew, -⟩ := hkept.get?_eq_some' hold
        exact ⟨new, hnew⟩
      have hturns : resolved.TakesTurns := by
        intro other hother
        obtain ⟨_, _, _, _, rfl, -⟩ := resolveUse_frame hresolve
        rw [← Option.some.inj (hcombat.symm.trans hother)]
        exact hmode
      exact Or.inr ⟨outcome, resolved, rfl, ⟨actor, ability, target, hactor, htarget, hresolve⟩,
        Transits.after (Passed.refl resolved) (fun _ ↦ hturns) (settleUse_transits hknown hsettle)⟩

theorem requestMode_passed {mode : EncounterMode} (hrequest : requestMode world mode = .ok next) :
    Passed strict world next := by
  simp only [requestMode, bind_ok_iff, pure_ok_iff, Result.okOr_eq_ok_iff] at hrequest
  obtain ⟨combat, hcombat, _, -, rfl⟩ := hrequest
  exact Passed.combat hcombat rfl

/-! ### The tick -/

theorem roundBoundary_transits (hliving : strict → ScheduledLiving world.timeline world.combatants)
    (hboundary : roundBoundary world = .ok (facts, next)) :
    Transits strict world.Idle world next facts := by
  simp only [roundBoundary, bind_ok_iff, pure_eq, expect_eq_ok_iff] at hboundary
  obtain ⟨combat, hcombat, hboundary⟩ := hboundary
  have htaken : Passed strict world
      { world with combat := some { combat with pendingMode := none } } :=
    Passed.combat hcombat rfl
  split_ifs at hboundary
  · obtain ⟨⟨turn, after⟩, hswitch, hnext⟩ := bind_eq_ok_iff.mp hboundary
    cases hnext
    obtain ⟨hswitched, hturn, hidle⟩ :=
      switchToTurnBased_passed (htaken.scheduledLiving hliving) hswitch
    exact Transits.of_turn (htaken.trans hswitched) hturn (fun _ ↦ hidle) rfl rfl
  · obtain ⟨_, hstart, hnext⟩ := bind_eq_ok_iff.mp hboundary
    cases hnext
    obtain ⟨hstarted, hkept⟩ := rtRoundStart_passed hstart
    exact Transits.of_none (htaken.trans hstarted)
      (fun hidle ↦ hkept (hidle.keeps hcombat rfl rfl rfl)) rfl

/-- The clock stage. Assumes: only the living are scheduled when the pass is strict. -/
theorem clockStage_transits (hliving : strict → ScheduledLiving world.timeline world.combatants)
    (hstage : clockStage world = .ok (facts, next)) :
    Transits strict world.Idle world next facts := by
  unfold clockStage at hstage
  split at hstage
  · simp only [bind_ok_iff, pure_eq, expect_eq_ok_iff] at hstage
    obtain ⟨combat, hcombat, clock, -, hstage⟩ := hstage
    have hticked : Passed strict world { world with
        combat := some { combat with clock := some { clock with elapsed := clock.elapsed + 1 } } } :=
      Passed.combat hcombat rfl
    have hdelivered := hticked.trans
      (Passed.deliverClockAdvance _ clock.elapsed (clock.elapsed + 1))
    split_ifs at hstage
    · cases hstage
      exact Transits.of_none hticked (fun hidle ↦ hidle.keeps hcombat rfl rfl rfl) rfl
    · obtain ⟨_, -, hstage⟩ := bind_eq_ok_iff.mp hstage
      cases hstage
      exact Transits.of_none hdelivered (fun hidle ↦ hidle.keeps hcombat rfl rfl rfl) rfl
    · obtain ⟨_, -, hstage⟩ := bind_eq_ok_iff.mp hstage
      refine Transits.after hdelivered (fun hidle ↦ ?_)
        (roundBoundary_transits (hdelivered.scheduledLiving hliving) hstage)
      exact hidle.keeps hcombat rfl rfl rfl
  · cases hstage
    exact Transits.of_none (Passed.refl world) id rfl

/-- A due order is cleared, or it is one resolution and then a pass. -/
theorem executeOrder_cases (strict : Prop) {elapsed roundTicks : ℕ} {order : StandingOrder}
    {event : TickEvent}
    (hexecute : executeOrder elapsed roundTicks world actor order = .ok (event, next)) :
    next.combat = world.combat ∧ ((event = .orderEnded actor ∧ Passed strict world next) ∨
      ∃ outcome resolved, event = .resolved outcome ∧ Resolves world outcome resolved ∧
        Passed strict resolved next) := by
  unfold executeOrder at hexecute
  split at hexecute
  · cases hexecute
  · cases hexecute
    exact ⟨rfl, Or.inl ⟨rfl, Passed.modifyOrder world actor none⟩⟩
  · next hvalid =>
    obtain ⟨hactor, htarget⟩ := living_of_validateAction hvalid
    simp only [bind_ok_iff, pure_ok_iff, Prod.mk.injEq] at hexecute
    obtain ⟨_, -, _, -, ⟨outcome, resolved⟩, hresolve, rekeyed, hrekey, rfl, rfl⟩ := hexecute
    have hpassed : Passed strict resolved rekeyed :=
      (buryDead_passed resolved).trans (rekeyActor_passed hrekey)
    have hcombat : rekeyed.combat = world.combat := by
      rw [rekeyActor_combat hrekey]
      obtain ⟨_, _, _, _, rfl, -⟩ := resolveUse_frame hresolve
      rfl
    exact ⟨hcombat, Or.inr ⟨outcome, resolved, rfl,
      ⟨actor, order.ability, order.target, hactor, htarget, hresolve⟩, hpassed⟩⟩

end Settling

/-- The execution of orders keeps the encounter state. -/
theorem executionStage_combat {before : TransitionFacts} {facts : TickFacts}
    (hstage : executionStage world before = .ok (facts, next)) : next.combat = world.combat := by
  refine (executionStage_induct (motive := fun _ state ↦ state.combat = world.combat) rfl ?_
    hstage).1
  intro _ _ _ state after actor order event hstate _ _ hexecute
  exact (executeOrder_cases False hexecute).1.trans hstate

end Crpg.Sim
