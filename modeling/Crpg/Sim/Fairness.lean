import Crpg.Lib.Service
import Crpg.Sim.DeliveryRun

/-!
# The turn order as a queue in service

The timeline of a turn-based encounter is a queue: its positions wait, the position of the active
combatant is in service, and a combatant that dies or leaves drops out. Every call of the controller
that starts no round is a step of that queue, which reports the turn it starts and delivers its
refresh; a call that starts a round found the queue empty.
-/

set_option autoImplicit false

namespace Crpg.Sim

open Crpg.Core Crpg.Lib Crpg.Rules Crpg.Data
open Result (bind_eq bind_eq_ok_iff expect_eq_ok_iff expect_some ok_bind pure_eq)

/-! ### The queue -/

/-- The combatant that holds the turn. -/
def World.active (world : World) : Option EntityId := world.combat.bind CombatState.active

def turnService (world : World) : Service TurnKey where
  waiting := {slot | slot ∈ world.timeline}
  current := world.active.bind world.timeline.find
  gone := {slot | ¬Living world.combatants slot.entity}

/-- The combatant that becomes active in a call. -/
def activated (world next : World) : Option EntityId :=
  next.active.filter fun id ↦ world.active ≠ some id

/-- The encounter stays in its mode and its round, unless it is released. -/
def RoundKept (world next : World) : Prop :=
  ∀ after, next.combat = some after →
    ∃ before, world.combat = some before ∧ after.mode = before.mode ∧ after.round = before.round

section Queue

variable {world mid next : World}

theorem current_eq_some_iff {slot : TurnKey} : (turnService world).current = some slot ↔
    world.active = some slot.entity ∧ slot ∈ world.timeline := by
  simp only [turnService, Option.bind_eq_some_iff, Timeline.find_eq_some_iff]
  constructor
  · rintro ⟨id, hactive, hslot, rfl⟩
    exact ⟨hactive, hslot⟩
  · rintro ⟨hactive, hslot⟩
    exact ⟨slot.entity, hactive, hslot, rfl⟩

theorem current_eq_none (hidle : next.active = none) : (turnService next).current = none := by
  rw [turnService, hidle, Option.bind_none]

/-- The position in service stays. Assumes: the same combatant is active, and its position is kept.
-/
theorem current_congr (hactive : next.active = world.active)
    (hkept : ∀ slot, world.active = some slot.entity →
      (slot ∈ next.timeline ↔ slot ∈ world.timeline)) :
    (turnService next).current = (turnService world).current := by
  ext slot
  rw [current_eq_some_iff, current_eq_some_iff, hactive]
  exact and_congr_right fun hholds ↦ hkept slot hholds

/-- Positions leave the queue when their combatant held the turn, died or left. -/
theorem shrinks_of_left (htimeline : ∀ slot ∈ mid.timeline, slot ∈ world.timeline)
    (hliving : ∀ id, Living mid.combatants id → Living world.combatants id)
    (hleft : ∀ slot ∈ world.timeline, slot ∈ mid.timeline ∨ world.active = some slot.entity ∨
      ¬Living mid.combatants slot.entity) :
    Service.Shrinks (turnService world) (turnService mid) := by
  refine ⟨htimeline, fun slot hgone hliving' ↦ hgone (hliving _ hliving'), fun slot hslot ↦ ?_⟩
  rcases hleft slot hslot with hstill | hactive | hdead
  · exact Or.inl hstill
  · exact Or.inr (Or.inl (current_eq_some_iff.mpr ⟨hactive, hslot⟩))
  · exact Or.inr (Or.inr hdead)

theorem shrinks_remove_active {id : EntityId} (hactive : world.active = some id)
    (hshrinks : Service.Shrinks (turnService world) (turnService mid)) :
    Service.Shrinks (turnService world)
      (turnService { mid with timeline := mid.timeline.remove id }) := by
  refine ⟨fun slot hslot ↦ hshrinks.waiting (Timeline.mem_remove.mp hslot).1, hshrinks.gone,
    fun slot hslot ↦ ?_⟩
  by_cases hid : slot.entity = id
  · exact Or.inr (Or.inl (current_eq_some_iff.mpr ⟨hid ▸ hactive, hslot⟩))
  · exact (hshrinks.left slot hslot).imp_left fun hstill ↦ Timeline.mem_remove.mpr ⟨hstill, hid⟩

/-- The active combatant is not scheduled any more. -/
theorem vacates_of_not_contains {id : EntityId} (hactive : world.active = some id)
    (hgone : mid.timeline.contains id ≠ true) :
    Service.Vacates (turnService world) (turnService mid) := by
  intro slot hcurrent hslot
  have hholds := (current_eq_some_iff.mp hcurrent).1
  rw [hactive, Option.some.injEq] at hholds
  exact hgone (Timeline.contains_iff.mpr ⟨slot, hslot, hholds.symm⟩)

/-- Nobody becomes active when the turn is held by the same combatant or by none. -/
theorem activated_eq_none (hsame : next.active = world.active ∨ next.active = none) :
    activated world next = none := by
  unfold activated
  rcases hsame with hsame | hidle
  · rw [hsame]
    cases world.active with
    | none => rfl
    | some id => simp
  · rw [hidle, Option.filter_none]

end Queue

/-! ### What a call does to the queue -/

/-- What an accepted action or a despawn does to the turn order: it keeps the turn, it ends the
encounter, or it settles the turn after the active combatant left the timeline. -/
inductive Settles (world next : World) : Option (EntityId × ℕ) → List Delivery → Prop
  | keep (shrinks : Service.Shrinks (turnService world) (turnService next))
      (active : next.active = world.active)
      (current : (turnService next).current = (turnService world).current)
      (kept : RoundKept world next) : Settles world next none []
  | halt (shrinks : Service.Shrinks (turnService world) (turnService next))
      (vacates : Service.Vacates (turnService world) (turnService next))
      (idle : next.active = none) (kept : RoundKept world next) : Settles world next none []
  | advance {mid settled : World} {facts : TransitionFacts} {log : List Delivery}
      (shrinks : Service.Shrinks (turnService world) (turnService mid))
      (vacates : Service.Vacates (turnService world) (turnService mid))
      (combat : mid.combat = world.combat)
      (returned : advanceTrackedLogged mid = .ok (log, facts, settled))
      (timeline : next.timeline = settled.timeline)
      (combatants : next.combatants = settled.combatants)
      (result : next.combat = settled.combat) : Settles world next facts.turnStarted log

section Calls

variable {world resolved next : World} {combat : CombatState} {log : List Delivery}

/-- A call that leaves the timeline, the living and the encounter's turn alone. -/
theorem settles_of_same (htimeline : next.timeline = world.timeline)
    (hliving : ∀ id, Living next.combatants id ↔ Living world.combatants id)
    (hactive : next.active = world.active) (hkept : RoundKept world next) :
    Settles world next none [] := by
  refine .keep (shrinks_of_left ?_ (fun id ↦ (hliving id).mp) ?_) hactive
    (current_congr hactive fun slot _ ↦ by rw [htimeline]) hkept
  · intro slot hslot
    rwa [htimeline] at hslot
  · intro slot hslot
    exact Or.inl (by rwa [htimeline])

theorem roundKept_of_eq {after : CombatState} (hcombat : world.combat = some combat)
    (hafter : next.combat = some after) (hmode : after.mode = combat.mode)
    (hround : after.round = combat.round) : RoundKept world next := by
  intro found hfound
  rw [hafter, Option.some.injEq] at hfound
  exact ⟨combat, hcombat, hfound ▸ hmode, hfound ▸ hround⟩

theorem roundKept_refl (hcombat : next.combat = world.combat) : RoundKept world next :=
  fun after hafter ↦ ⟨after, hcombat ▸ hafter, rfl, rfl⟩

theorem active_eq (hcombat : world.combat = some combat) : world.active = combat.active := by
  rw [World.active, hcombat, Option.bind_some]

/-- After a resolution the dead leave the queue. -/
theorem shrinks_unscheduleDead (hkept : Kept world.combatants resolved.combatants)
    (htimeline : resolved.timeline = world.timeline) :
    Service.Shrinks (turnService world) (turnService (unscheduleDead resolved)) := by
  refine shrinks_of_left (fun slot hslot ↦ htimeline ▸ (mem_foldl_remove.mp hslot).1)
    (fun id ↦ living_of_kept hkept) fun slot hslot ↦ ?_
  by_cases hdead : slot.entity ∈ resolved.deadIds
  · refine Or.inr (Or.inr ?_)
    rintro ⟨combatant, hget, halive⟩
    obtain ⟨found, hfound, hfallen⟩ := World.mem_deadIds.mp hdead
    have hsame : combatant = found := Option.some.inj (hget.symm.trans hfound)
    rw [hsame, hfallen] at halive
    cases halive
  · exact Or.inl (mem_foldl_remove.mpr ⟨htimeline ▸ hslot, hdead⟩)

theorem endTurn_of_head {id : EntityId} (hhead : world.timeline.head? = some id) :
    endTurn world = { world with timeline := world.timeline.remove id } := by
  rw [endTurn, hhead]

theorem not_contains_remove (timeline : Timeline) (id : EntityId) :
    (timeline.remove id).contains id ≠ true := fun hcontains ↦
  (contains_remove.mp hcontains).2 rfl

/-- A use settles the turn. Assumes: the actor holds the turn and heads the timeline. -/
theorem settleUseLogged_settles (hcombat : world.combat = some combat)
    (hresolved : resolved.combat = some combat) (hkept : Kept world.combatants resolved.combatants)
    (htimeline : resolved.timeline = world.timeline) {actor : EntityId} {ability : Ulid}
    (hactive : combat.active = some actor) (hhead : world.timeline.head? = some actor)
    {facts : TransitionFacts}
    (hsettle : settleUseLogged resolved actor ability = .ok (log, facts, next)) :
    Settles world next facts.turnStarted log := by
  simp only [settleUseLogged, hresolved, expect_some, bind_eq, pure_eq, ok_bind, bind_eq_ok_iff]
    at hsettle
  obtain ⟨entry, -, hsettle⟩ := hsettle
  have hholds : world.active = some actor := (active_eq hcombat).trans hactive
  have hshrinks := shrinks_unscheduleDead hkept htimeline
  -- While the actor is scheduled it heads the timeline, so the end of the turn removes it.
  have hended (hcontains : (unscheduleDead resolved).timeline.contains actor = true) :
      endTurn (unscheduleDead resolved) = { unscheduleDead resolved with
        timeline := (unscheduleDead resolved).timeline.remove actor } :=
    endTurn_of_head (head?_unscheduleDead (htimeline ▸ hhead) hcontains)
  have hremoved := shrinks_remove_active hholds hshrinks
  split_ifs at hsettle with hfew hcontains hgone hends
  · rw [hended hcontains] at hsettle
    cases hsettle
    exact .halt (hremoved.congr rfl rfl)
      (vacates_of_not_contains hholds (not_contains_remove _ actor)) rfl
      (roundKept_of_eq hcombat rfl rfl rfl)
  · cases hsettle
    exact .halt (hshrinks.congr rfl rfl)
      (vacates_of_not_contains hholds hcontains) rfl (roundKept_of_eq hcombat rfl rfl rfl)
  · exact .advance hshrinks
      (vacates_of_not_contains hholds fun hcontains ↦ Bool.noConfusion (hgone.symm.trans hcontains))
      (hresolved.trans hcombat.symm) hsettle rfl rfl rfl
  · rw [Bool.not_eq_false] at hgone
    rw [hended hgone] at hsettle
    exact .advance hremoved (vacates_of_not_contains hholds (not_contains_remove _ actor))
      (hresolved.trans hcombat.symm) hsettle rfl rfl rfl
  · cases hsettle
    rw [Bool.not_eq_false] at hgone
    refine .keep (hshrinks.congr rfl rfl) hholds.symm
      (current_congr hholds.symm fun slot hslot ↦ ?_) (roundKept_of_eq hcombat rfl rfl rfl)
    refine ⟨fun hmem ↦ hshrinks.waiting hmem, fun hmem ↦ ?_⟩
    obtain ⟨kept, hkeptMem, hentity⟩ := Timeline.contains_iff.mp hgone
    rw [hholds, Option.some.injEq] at hslot
    have hsame : kept = slot :=
      Timeline.eq_of_mem (hshrinks.waiting hkeptMem) hmem (hentity.trans hslot)
    exact hsame ▸ hkeptMem

theorem validateAction_endTurn_active {actor : EntityId} (hcombat : world.combat = some combat)
    (hvalid : validateAction world (.endTurn actor) = .ok ()) :
    Living world.combatants actor ∧ combat.active = some actor := by
  simp only [validateAction, hcombat, Result.okOr, bind_eq, ok_bind, bind_eq_ok_iff,
    Result.failIf_eq_ok_iff] at hvalid
  obtain ⟨_, hcheck, _, -, hactive⟩ := hvalid
  exact ⟨living_of_checkActor hcheck, not_not.mp hactive⟩

theorem performActionLogged_settles (hcoherent : Coherent world) {action : CombatAction}
    {facts : Option ActionOutcome × TransitionFacts}
    (hperform : performActionLogged world action = .ok (log, facts, next)) :
    Settles world next facts.2.turnStarted log := by
  simp only [performActionLogged, bind_eq, bind_eq_ok_iff] at hperform
  obtain ⟨_, hvalid, hperform⟩ := hperform
  obtain ⟨combat, hcombat⟩ := combat_of_validateAction hvalid
  have hscheduled := hcoherent.scheduled combat hcombat
  cases action with
  | stop actor =>
    simp only [pure_eq, bind_eq_ok_iff, Result.ok.injEq, Prod.mk.injEq] at hperform
    obtain ⟨_, -, rfl, rfl, rfl⟩ := hperform
    exact settles_of_same rfl (fun id ↦ living_modify fun _ ↦ rfl) rfl (roundKept_refl rfl)
  | endTurn actor =>
    have hturn := hscheduled.turnBased (validateAction_endTurn hcombat hvalid)
    obtain ⟨hliving, hactive⟩ := validateAction_endTurn_active hcombat hvalid
    have hholds : world.active = some actor := (active_eq hcombat).trans hactive
    have hhead := hturn.head actor hactive
    simp only [pure_eq, bind_eq_ok_iff, Result.ok.injEq, Prod.mk.injEq] at hperform
    obtain ⟨⟨_, _, _⟩, hadvance, rfl, rfl, rfl⟩ := hperform
    have hshrinks := shrinks_unscheduleDead (kept_refl world.combatants)
      (show world.timeline = world.timeline from rfl)
    have hcontains : (unscheduleDead world).timeline.contains actor = true := by
      obtain ⟨slot, hslot, rfl⟩ := Timeline.mem_of_head? hhead
      refine Timeline.contains_iff.mpr ⟨slot, mem_foldl_remove.mpr ⟨hslot, fun hdead ↦ ?_⟩, rfl⟩
      obtain ⟨combatant, hget, halive⟩ := hliving
      obtain ⟨found, hfound, hfallen⟩ := World.mem_deadIds.mp hdead
      have hsame : combatant = found := Option.some.inj (hget.symm.trans hfound)
      rw [hsame, hfallen] at halive
      cases halive
    rw [endTurn_of_head (head?_unscheduleDead hhead hcontains)] at hadvance
    exact .advance (shrinks_remove_active hholds hshrinks)
      (vacates_of_not_contains hholds (not_contains_remove _ actor)) rfl hadvance rfl rfl rfl
  | useAbility actor ability target =>
    obtain ⟨-, hcheck⟩ := validateAction_useAbility hcombat hvalid
    simp only [hcombat, expect_some, ok_bind, pure_eq] at hperform
    split at hperform
    · simp only [bind_eq_ok_iff, Result.ok.injEq, Prod.mk.injEq] at hperform
      obtain ⟨_, -, _, -, rfl, rfl, rfl⟩ := hperform
      exact settles_of_same rfl (fun id ↦ living_modify fun _ ↦ rfl) rfl (roundKept_refl rfl)
    · next hmode =>
      simp only [bind_eq_ok_iff, Result.ok.injEq, Prod.mk.injEq] at hperform
      obtain ⟨⟨_, resolved⟩, hresolve, ⟨_, _, _⟩, hsettle, rfl, rfl, rfl⟩ := hperform
      obtain ⟨_, _, _, combatants, hframe, hkept, -⟩ := resolveUse_frame hresolve
      simp only [checkTurn, hmode, Result.failIf_eq_ok_iff, not_not] at hcheck
      refine settleUseLogged_settles hcombat ?_ ?_ ?_ hcheck
        ((hscheduled.turnBased hmode).head actor hcheck) hsettle
      · rw [hframe]
        exact hcombat
      · rw [hframe]
        exact hkept
      · rw [hframe]

theorem Settles.congr {settled : World} {turn : Option (EntityId × ℕ)}
    (hsettles : Settles world settled turn log) (htimeline : next.timeline = settled.timeline)
    (hcombatants : next.combatants = settled.combatants) (hcombat : next.combat = settled.combat) :
    Settles world next turn log := by
  have hservice : turnService next = turnService settled := by
    rw [turnService, turnService, World.active, World.active, htimeline, hcombatants, hcombat]
  have hactive : next.active = settled.active := congrArg (Option.bind · CombatState.active) hcombat
  cases hsettles with
  | keep hshrinks hsame hcurrent hkept =>
    refine .keep (hservice ▸ hshrinks) (hactive.trans hsame) (hservice ▸ hcurrent) ?_
    exact fun after hafter ↦ hkept after (hcombat ▸ hafter)
  | halt hshrinks hvacates hidle hkept =>
    refine .halt (hservice ▸ hshrinks) (hservice ▸ hvacates) (hactive.trans hidle) ?_
    exact fun after hafter ↦ hkept after (hcombat ▸ hafter)
  | advance hshrinks hvacates hmid hreturned hsameTimeline hsameCombatants hsameCombat =>
    exact .advance hshrinks hvacates hmid hreturned (htimeline.trans hsameTimeline)
      (hcombatants.trans hsameCombatants) (hcombat.trans hsameCombat)

/-- The leaver drops out of the queue. -/
theorem shrinks_strip (world : World) (entities : GenerationalArena EntityMeta) (id : EntityId) :
    Service.Shrinks (turnService world) (turnService (strip world entities id)) := by
  refine shrinks_of_left (fun slot hslot ↦ (Timeline.mem_remove.mp hslot).1)
    (fun other hliving ↦ (living_shiftRemove.mp hliving).1) fun slot hslot ↦ ?_
  by_cases hid : slot.entity = id
  · exact Or.inr (Or.inr fun hliving ↦ (living_shiftRemove.mp hliving).2 hid)
  · exact Or.inl (Timeline.mem_remove.mpr ⟨hslot, hid⟩)

theorem settleDespawnLogged_settles (hcoherent : Coherent world)
    {entities : GenerationalArena EntityMeta} {id : EntityId} {facts : TransitionFacts}
    (hsettle : settleDespawnLogged (strip world entities id) world.combat id =
      .ok (log, facts, next)) : Settles world next facts.turnStarted log := by
  have hshrinks := shrinks_strip world entities id
  have hliving : ScheduledLiving (world.timeline.remove id) (world.combatants.shiftRemove id) :=
    hcoherent.scheduledLiving.shiftRemove
  unfold settleDespawnLogged at hsettle
  split_ifs at hsettle with hempty hholds
  · have hnone := iter_eq_nil hliving (IndexMap.isEmpty_iff.mp hempty)
    cases hsettle
    refine .halt (hshrinks.congr rfl rfl) ?_ rfl ?_
    · intro slot _ hslot
      have hmem : slot ∈ (world.timeline.remove id).iter := hslot
      rw [hnone] at hmem
      cases hmem
    · intro after hafter
      cases hafter
  · have hactive : world.active = some id := hholds
    exact .advance hshrinks (vacates_of_not_contains hactive (not_contains_remove _ id)) rfl
      hsettle rfl rfl rfl
  · have hother : world.active ≠ some id := hholds
    cases hsettle
    refine .keep hshrinks rfl (current_congr rfl fun slot hslot ↦ ?_) (roundKept_refl rfl)
    refine Timeline.mem_remove.trans (and_iff_left ?_)
    intro hid
    exact hother (hid ▸ hslot)

theorem despawnLogged_settles (hcoherent : Coherent world) {id : EntityId}
    {facts : Bool × TransitionFacts} (hdespawn : despawnLogged world id = .ok (log, facts, next)) :
    Settles world next facts.2.turnStarted log := by
  unfold despawnLogged at hdespawn
  split at hdespawn
  · cases hdespawn
    exact settles_of_same rfl (fun _ ↦ Iff.rfl) rfl (roundKept_refl rfl)
  · next entities _ =>
    obtain ⟨⟨settledLog, settledFacts, settled⟩, hsettle, hnext⟩ :=
      bind_eq_ok_iff.mp hdespawn
    simp only [Result.ok.injEq, Prod.mk.injEq] at hnext
    obtain ⟨rfl, hfacts, rfl⟩ := hnext
    -- The end of a real-time encounter is all a despawn adds to the facts.
    have hturn : facts.2.turnStarted = settledFacts.turnStarted := by
      rw [← hfacts]
      dsimp only
      split
      · split_ifs <;> rfl
      · rfl
    rw [hturn]
    exact (settleDespawnLogged_settles hcoherent hsettle).congr rfl rfl rfl

/-- A tick outside real-time play leaves the turn order alone. -/
theorem tickLogged_settles (hidle : rtRunning world = false) {facts : TickFacts}
    (htick : tickLogged world = .ok (log, facts, next)) :
    Settles world next facts.transitions.turnStarted log := by
  have hrunning : rtRunning world.advanceTick = false := hidle
  simp only [tickLogged, clockStageLogged, hrunning, executionStage, ok_bind, Bool.false_eq_true,
    if_false] at htick
  cases htick
  exact settles_of_same rfl (fun _ ↦ Iff.rfl) rfl (roundKept_refl rfl)

end Calls

/-! ### Steps within a round -/

/-- A call within a round: a step of the queue. The combatant whose position is taken into service
becomes active, its turn is reported, and its refresh is delivered. -/
structure TurnStep (world next : World) (slot : Option TurnKey) (turn : Option (EntityId × ℕ))
    (log : List Delivery) : Prop where
  step : (turnService world).Step (turnService next) slot
  activated : activated world next = slot.map TurnKey.entity
  reported : ∀ round, (∀ combat, world.combat = some combat → combat.round = round) →
    turn = slot.map fun slot ↦ (slot.entity, round)
  delivered : log = slot.toList.map fun slot ↦ .turnStart slot.entity
  kept : RoundKept world next

section Steps

variable {world mid settled next : World} {log : List Delivery}

theorem nextTurnLogged_spec {facts : TransitionFacts}
    (hturn : nextTurnLogged mid = .ok (log, facts, settled)) :
    ∃ combat slot, mid.combat = some combat ∧ IsLeast {slot | slot ∈ mid.timeline} slot ∧
      settled.timeline = mid.timeline ∧ Stood mid.combatants settled.combatants ∧
      settled.combat = some { combat with active := some slot.entity } ∧
      facts.turnStarted = some (slot.entity, combat.round) ∧ log = [.turnStart slot.entity] := by
  simp only [nextTurnLogged, Result.bind_ok_iff, Result.pure_ok_iff, expect_eq_ok_iff,
    Prod.mk.injEq] at hturn
  obtain ⟨head, hhead, _, -, combat, hcombat, rfl, rfl, rfl⟩ := hturn
  obtain ⟨slot, hslot, rfl, hleast⟩ := Timeline.head?_eq_some_iff.mp hhead
  exact ⟨combat, slot, hcombat, ⟨hslot, fun other hother ↦ hleast other hother⟩, rfl,
    refreshOne_stood mid slot.entity .turnStart, rfl, rfl, rfl⟩

theorem roundStart_mem_of_rolloverLogged {facts : TransitionFacts}
    (hrollover : rolloverLogged mid = .ok (log, facts, settled)) : .roundStart ∈ log := by
  simp only [rolloverLogged, bind_eq, pure_eq, bind_eq_ok_iff, expect_eq_ok_iff] at hrollover
  obtain ⟨combat, hcombat, hrollover⟩ := hrollover
  split at hrollover
  · split_ifs at hrollover
    · simp only [switchToRealTimeLogged, bind_eq, bind_eq_ok_iff, Result.ok.injEq, Prod.mk.injEq]
        at hrollover
      obtain ⟨⟨_, _, _⟩, ⟨_, -, _, -, _, -, hstart⟩, rfl, -⟩ := hrollover
      obtain ⟨rfl, -⟩ := rtRoundStartLogged_combat rfl hstart
      simp
    · simp only [bind_eq_ok_iff, Result.ok.injEq, Prod.mk.injEq] at hrollover
      obtain ⟨⟨_, _, _⟩, hstart, rfl, -⟩ := hrollover
      obtain ⟨rfl, -⟩ := tbRoundStartLogged_combat rfl hstart
      simp
  · simp only [bind_eq_ok_iff, Result.ok.injEq, Prod.mk.injEq] at hrollover
    obtain ⟨⟨_, _, _⟩, hstart, rfl, -⟩ := hrollover
    obtain ⟨rfl, -⟩ := tbRoundStartLogged_combat hcombat hstart
    simp

/-- The new head is not the combatant that held the turn. -/
theorem activated_of_vacates {slot : TurnKey}
    (hshrinks : Service.Shrinks (turnService world) (turnService mid))
    (hvacates : Service.Vacates (turnService world) (turnService mid))
    (hslot : slot ∈ mid.timeline) (hactive : next.active = some slot.entity) :
    activated world next = some slot.entity := by
  rw [activated, hactive, Option.filter_some, if_pos]
  refine decide_eq_true fun hheld ↦ ?_
  have hcurrent : (turnService world).current = some slot :=
    current_eq_some_iff.mpr ⟨hheld, hshrinks.waiting hslot⟩
  exact hvacates slot hcurrent hslot

theorem turnStep_of_settles {turn : Option (EntityId × ℕ)} (hsettles : Settles world next turn log)
    (hround : .roundStart ∉ log) : ∃ slot, TurnStep world next slot turn log := by
  cases hsettles with
  | keep hshrinks hactive hcurrent hkept =>
    exact ⟨none, .stay hshrinks hcurrent, activated_eq_none (Or.inl hactive), fun _ _ ↦ rfl, rfl,
      hkept⟩
  | halt hshrinks hvacates hidle hkept =>
    exact ⟨none, .stop hshrinks hvacates (current_eq_none hidle), activated_eq_none (Or.inr hidle),
      fun _ _ ↦ rfl, rfl, hkept⟩
  | @advance mid settled facts log hshrinks hvacates hmid hreturned htimeline hcombatants hcombat =>
    unfold advanceTrackedLogged at hreturned
    split_ifs at hreturned with halive hempty
    · exact absurd (roundStart_mem_of_rolloverLogged hreturned) hround
    · obtain ⟨combat, slot, hpresent, hleast, hsame, hstood, hset, hfacts, rfl⟩ :=
        nextTurnLogged_spec hreturned
      have hactive : next.active = some slot.entity := active_eq (hcombat.trans hset)
      have hmem : slot ∈ next.timeline := by
        rw [htimeline, hsame]
        exact hleast.1
      have hliving (id : EntityId) : Living next.combatants id ↔ Living mid.combatants id := by
        rw [hcombatants]
        exact living_iff_of_stood hstood
      have hwaiting : (turnService next).waiting = (turnService mid).waiting := by
        rw [turnService, turnService, htimeline, hsame]
      have hgone : (turnService next).gone = (turnService mid).gone :=
        Set.ext fun other ↦ not_congr (hliving other.entity)
      have hpast : world.combat = some combat := hmid.symm.trans hpresent
      refine ⟨some slot, .pass (hshrinks.congr hwaiting hgone) (hvacates.congr hwaiting) ?_
        (current_eq_some_iff.mpr ⟨hactive, hmem⟩),
        activated_of_vacates hshrinks hvacates hleast.1 hactive, ?_, rfl,
        roundKept_of_eq hpast (hcombat.trans hset) rfl rfl⟩
      · rw [hwaiting]
        exact hleast
      · intro round hrounds
        rw [hfacts, hrounds combat hpast]
        rfl
    · simp only [silent, terminate, Result.bind_assoc, ok_bind, bind_eq_ok_iff, expect_eq_ok_iff,
        Result.ok.injEq, Prod.mk.injEq] at hreturned
      obtain ⟨combat, hpresent, rfl, rfl, rfl⟩ := hreturned
      have hpast : world.combat = some combat := hmid.symm.trans hpresent
      have hidle : next.active = none := active_eq hcombat
      have hservice : (turnService next).waiting = (turnService mid).waiting ∧
          (turnService next).gone = (turnService mid).gone := by
        rw [turnService, turnService, htimeline, hcombatants]
        exact ⟨rfl, rfl⟩
      exact ⟨none, .stop (hshrinks.congr hservice.1 hservice.2) (hvacates.congr hservice.1)
        (current_eq_none hidle), activated_eq_none (Or.inr hidle), fun _ _ ↦ rfl, rfl,
        roundKept_of_eq hpast hcombat rfl rfl⟩

end Steps

end Crpg.Sim
