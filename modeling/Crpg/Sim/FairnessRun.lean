import Crpg.Sim.Fairness
import Crpg.Sim.Mortality

/-!
# Turns over a round

A round of turn-based play opens with every living combatant scheduled at its initiative and the
first of them active. From there to the start of the next round the turn order is served as a queue:
every combatant becomes active once, in ascending order, unless it drops out first.
-/

set_option autoImplicit false

namespace Crpg.Sim

open Crpg.Core Crpg.Lib Crpg.Rules Crpg.Data
open Result (bind_eq bind_eq_ok_iff bind_ok_iff expect_eq_ok_iff expect_some isOkAnd_iff ok_bind
  pure_eq pure_ok_iff)

/-! ### The opening of a round -/

def turnStarts (log : List Delivery) : List EntityId :=
  log.filterMap fun delivery ↦
    match delivery with
    | .turnStart id => some id
    | _ => none

theorem turnStarts_append (first second : List Delivery) :
    turnStarts (first ++ second) = turnStarts first ++ turnStarts second :=
  List.filterMap_append

/-- A world at the start of a turn-based round: the living are scheduled, each at its initiative,
and the first of them is active. -/
structure Opening (opened : World) : Prop where
  scheduled : ∀ id, opened.timeline.contains id = true ↔ Living opened.combatants id
  keyed : ∀ slot ∈ opened.timeline, ∀ combatant,
    opened.combatants.get? slot.entity = some combatant → slot.key = combatant.initiative
  head : opened.active = opened.timeline.head?

structure Opens (opened : World) (turn : Option (EntityId × ℕ)) (log : List Delivery) : Prop
    extends Opening opened where
  reported : ∀ combat, opened.combat = some combat →
    turn = opened.active.map fun id ↦ (id, combat.round)
  delivered : turnStarts log = opened.active.toList
  single : .turnStartAll ∉ log

section Openings

variable {world next : World} {log : List Delivery}

/-- A turn-based round opens. Assumes: only the living are scheduled. -/
theorem tbRoundStartLogged_opens (hliving : ScheduledLiving world.timeline world.combatants)
    {turn : EntityId × ℕ} (hstart : tbRoundStartLogged world = .ok (log, turn, next)) :
    Opens next (some turn) log := by
  simp only [tbRoundStartLogged, bind_ok_iff, pure_ok_iff, expect_eq_ok_iff, Prod.mk.injEq]
    at hstart
  obtain ⟨combat, -, head, hhead, _, -, rfl, rfl, rfl⟩ := hstart
  generalize saturatingAdd u32Max combat.round 1 = round at hhead ⊢
  generalize hexpire : (Delivery.roundStart.emit world).2.expireAll round = expired at hhead ⊢
  have hexpired : Stood world.combatants expired.combatants := by
    rw [← hexpire]
    exact (mapAlive_stood world fun state ↦ state.stands_refresh .roundStart).trans
      (expireAll_stood _ _)
  have hsame : expired.timeline = world.timeline := by rw [← hexpire]; rfl
  rw [hsame] at hhead ⊢
  have hrefreshed := refreshOne_stood expired head .turnStart
  have hentries (id : EntityId) :
      id ∈ ((expired.combatants.entries.filter fun entry ↦ !entry.2.dead).map fun entry ↦
        (entry.2.initiative, entry.1)).map Prod.snd ↔ Living expired.combatants id := by
    rw [List.map_map]
    exact World.mem_aliveInStore
  refine ⟨⟨fun id ↦ ?_, fun slot hslot combatant hget ↦ ?_, hhead.symm⟩, ?_, rfl, by simp⟩
  · refine contains_schedule.trans ?_
    rw [hentries]
    refine Iff.trans ⟨fun hscheduled ↦ ?_, Or.inl⟩ (living_iff_of_stood hrefreshed).symm
    rcases hscheduled with hliving' | hold
    · exact hliving'
    · obtain ⟨slot, hslot, rfl⟩ := Timeline.contains_iff.mp hold
      exact (living_iff_of_stood hexpired).mpr (hliving slot hslot)
  · obtain ⟨before, hbefore, hstands⟩ := hrefreshed.get?_eq_some hget
    rw [hstands.initiative]
    rcases mem_schedule hslot with ⟨hold, hnew⟩ | ⟨entry, hentry, rfl⟩
    · exact absurd ((hentries _).mpr ((living_iff_of_stood hexpired).mpr (hliving slot hold))) hnew
    · obtain ⟨known, hknown, rfl⟩ := List.mem_map.mp hentry
      have hfound := IndexMap.mem_entries_iff.mp (List.mem_filter.mp hknown).1
      rw [Option.some.inj (hbefore.symm.trans hfound)]
      rfl
  · intro found hfound
    cases hfound
    rfl

theorem Opens.cons {turn : Option (EntityId × ℕ)} (hopens : Opens next turn log) (old new : ℕ) :
    Opens next turn (.advance old new :: log) where
  toOpening := hopens.toOpening
  reported := hopens.reported
  delivered := hopens.delivered
  single := by
    rw [List.mem_cons, not_or]
    exact ⟨Delivery.noConfusion, hopens.single⟩

theorem rolloverLogged_opens (hempty : ∀ slot, slot ∉ world.timeline) {facts : TransitionFacts}
    (hrollover : rolloverLogged world = .ok (log, facts, next)) {combat : CombatState}
    (hcombat : next.combat = some combat) (hmode : combat.mode = .turnBased) :
    Opens next facts.turnStarted log := by
  simp only [rolloverLogged, bind_eq, pure_eq, bind_eq_ok_iff] at hrollover
  obtain ⟨before, -, hrollover⟩ := hrollover
  split at hrollover
  · split_ifs at hrollover
    · simp only [switchToRealTimeLogged, bind_eq, bind_eq_ok_iff, Result.ok.injEq, Prod.mk.injEq]
        at hrollover
      obtain ⟨⟨_, _, _⟩, ⟨_, -, _, -, _, -, hstart⟩, -, -, rfl⟩ := hrollover
      obtain ⟨-, hset⟩ := rtRoundStartLogged_combat rfl hstart
      obtain rfl := Option.some.inj (hcombat.symm.trans hset)
      cases hmode
    · simp only [bind_eq_ok_iff, Result.ok.injEq, Prod.mk.injEq] at hrollover
      obtain ⟨⟨_, _, _⟩, hstart, rfl, rfl, rfl⟩ := hrollover
      refine (tbRoundStartLogged_opens ?_ hstart).cons ..
      exact fun slot hslot ↦ absurd hslot (hempty slot)
  · simp only [bind_eq_ok_iff, Result.ok.injEq, Prod.mk.injEq] at hrollover
    obtain ⟨⟨_, _, _⟩, hstart, rfl, rfl, rfl⟩ := hrollover
    exact tbRoundStartLogged_opens (fun slot hslot ↦ absurd hslot (hempty slot)) hstart

theorem roundBoundaryLogged_opens
    (hreal : ∀ before, world.combat = some before → before.mode = .realTime)
    (hliving : ScheduledLiving world.timeline world.combatants) {facts : TransitionFacts}
    (hboundary : roundBoundaryLogged world = .ok (log, facts, next)) {combat : CombatState}
    (hcombat : next.combat = some combat) (hmode : combat.mode = .turnBased) :
    Opens next facts.turnStarted log := by
  simp only [roundBoundaryLogged, bind_eq, pure_eq, bind_eq_ok_iff, expect_eq_ok_iff] at hboundary
  obtain ⟨before, hpresent, hboundary⟩ := hboundary
  split_ifs at hboundary
  · simp only [switchToTurnBasedLogged, expect_some, bind_eq, ok_bind, bind_eq_ok_iff,
      Result.ok.injEq, Prod.mk.injEq] at hboundary
    obtain ⟨⟨_, _, _⟩, hstart, rfl, rfl, rfl⟩ := hboundary
    refine tbRoundStartLogged_opens ?_ hstart
    exact fun slot hslot ↦ living_clearOrders.mpr (hliving slot hslot)
  · simp only [bind_eq_ok_iff, Result.ok.injEq, Prod.mk.injEq] at hboundary
    obtain ⟨⟨_, _, _⟩, hstart, -, -, rfl⟩ := hboundary
    obtain ⟨-, hset⟩ := rtRoundStartLogged_combat rfl hstart
    obtain rfl := Option.some.inj (hcombat.symm.trans hset)
    have hturn : before.mode = .turnBased := hmode
    rw [hreal before hpresent] at hturn
    cases hturn

theorem tickLogged_opens (hcoherent : Coherent world) {facts : TickFacts}
    (htick : tickLogged world = .ok (log, facts, next)) (hround : .roundStart ∈ log)
    {combat : CombatState} (hcombat : next.combat = some combat)
    (hmode : combat.mode = .turnBased) : Opens next facts.transitions.turnStarted log := by
  obtain ⟨⟨stagedLog, stagedFacts, staged⟩, hstage, hexecute⟩ := bind_eq_ok_iff.mp htick
  simp only [bind_eq_ok_iff, Result.ok.injEq, Prod.mk.injEq] at hexecute
  obtain ⟨⟨_, _⟩, hexecuted, rfl, rfl, rfl⟩ := hexecute
  have hsame : next.combat = staged.combat := executionStage_combat hexecuted
  have hstaged : staged.combat = some combat := hsame.symm.trans hcombat
  have hidle : rtRunning staged = false := by
    rw [rtRunning, hstaged]
    simp [hmode]
  rw [executionStage, hidle] at hexecuted
  cases hexecuted
  unfold clockStageLogged at hstage
  split at hstage
  · next hrunning =>
    obtain ⟨before, clock, hbefore, hreal, hclock, -, -⟩ := rtRunning_iff.mp hrunning
    have hpresent : world.combat = some before := hbefore
    simp only [hbefore, hclock, expect_some, bind_eq, pure_eq, ok_bind] at hstage
    split_ifs at hstage
    · cases hstage
      cases hround
    · obtain ⟨_, -, hstage⟩ := bind_eq_ok_iff.mp hstage
      cases hstage
      simp at hround
    · simp only [bind_eq_ok_iff, Result.ok.injEq, Prod.mk.injEq] at hstage
      obtain ⟨_, -, ⟨rest, _, _⟩, hboundary, rfl, rfl, rfl⟩ := hstage
      have hschedule := (hcoherent.scheduled before hpresent).realTime hreal
      have hadvanced := hschedule.advanceClock clock (clock.elapsed + 1)
      refine (roundBoundaryLogged_opens ?_ ?_ hboundary hcombat hmode).cons ..
      · intro found hfound
        rw [← Option.some.inj hfound]
        exact hreal
      · intro slot hslot
        exact (hadvanced.scheduled slot.entity).mp (Timeline.contains_iff.mpr ⟨slot, hslot, rfl⟩)
  · cases hstage
    cases hround

end Openings

/-! ### The first round -/

def AtInitiative (world : World) : Prop :=
  ∀ slot ∈ world.timeline, ∀ combatant,
    world.combatants.get? slot.entity = some combatant → slot.key = combatant.initiative

section First

variable {world next : World}

theorem AtInitiative.publish (hkeyed : AtInitiative world) (id : EntityId) (combatant : Combatant) :
    AtInitiative (publish .turnBased world id combatant) := by
  intro slot hslot found hget
  change (world.combatants.insert id combatant).get? slot.entity = some found at hget
  rw [IndexMap.get?_insert] at hget
  rcases Timeline.mem_insert.mp hslot with rfl | ⟨hold, hne⟩
  · have hself : TurnKey.entity (toLex (initialKey .turnBased combatant.initiative, id)) = id := rfl
    rw [if_pos hself] at hget
    exact congrArg Combatant.initiative (Option.some.inj hget)
  · rw [if_neg hne] at hget
    exact hkeyed slot hold found hget

theorem AtInitiative.publishMember {definition : CombatDefinition} {entry : Pending × Source}
    (hkeyed : AtInitiative world)
    (hpublish : publishMember .turnBased definition world entry = .ok next) : AtInitiative next := by
  unfold Crpg.Sim.publishMember at hpublish
  split at hpublish
  · cases hpublish
    exact hkeyed
  · simp only [bind_ok_iff, pure_ok_iff] at hpublish
    obtain ⟨_, -, _, -, rfl⟩ := hpublish
    apply AtInitiative.publish
    exact hkeyed
  · simp only [bind_ok_iff, pure_ok_iff, expect_eq_ok_iff] at hpublish
    obtain ⟨⟨_, _⟩, hspawn, _, -, rfl⟩ := hpublish
    obtain ⟨_, _, rfl⟩ := spawn_frame hspawn
    apply AtInitiative.publish
    exact hkeyed

theorem startEncounterInModeLogged_opens (hcoherent : Coherent world) {spec : EncounterSpec}
    {facts : StartFacts} {log : List Delivery}
    (hstart : startEncounterInModeLogged world spec .turnBased = .ok (log, facts, next)) :
    Opens next facts.initialTurn log := by
  simp only [startEncounterInModeLogged, Crpg.Sim.published, bind_ok_iff, pure_ok_iff,
    Prod.mk.injEq] at hstart
  obtain ⟨_, ⟨prepared, hprepare, _, -, _, -, ⟨rolled, members⟩, hroll, published, hpublish, rfl⟩,
    ⟨firstLog, active, first⟩, hfirst, rfl, rfl, rfl⟩ := hstart
  have hnone := combat_eq_none_of_prepare hprepare
  obtain ⟨_, hframe⟩ := rollInitiative_frame hroll
  have hrolled : Coherent rolled := by
    rw [hframe]
    exact hcoherent.congr rfl rfl rfl
  have hidle : rolled.combat = none := by
    rw [hframe]
    exact hnone
  have hpublishing := foldlM_publishing hrolled hidle hpublish
  have hkeyed : AtInitiative published := by
    refine Result.foldlM_preserves (motive := AtInitiative) ?_ ?_ hpublish
    · intro entry _ state after hstate hafter
      exact hstate.publishMember hafter
    · intro slot hslot
      rw [← Timeline.mem_iter, (hrolled.released hidle).2] at hslot
      cases hslot
  simp only [firstTurnLogged] at hfirst
  split at hfirst
  · next hhead =>
    cases hfirst
    refine ⟨⟨hpublishing.scheduled, hkeyed, hhead.symm⟩, ?_, rfl, List.not_mem_nil⟩
    intro combat _
    rfl
  · next head hhead =>
    obtain ⟨_, -, hnext⟩ := bind_eq_ok_iff.mp hfirst
    cases hnext
    have hstood := refreshOne_stood published head .turnStart
    refine ⟨⟨fun id ↦ (hpublishing.scheduled id).trans (living_iff_of_stood hstood).symm,
      fun slot hslot combatant hget ↦ ?_, hhead.symm⟩, ?_, rfl, by simp⟩
    · obtain ⟨before, hbefore, hstands⟩ := hstood.get?_eq_some hget
      exact (hkeyed slot hslot before hbefore).trans hstands.initiative.symm
    · intro combat hcombat
      cases hcombat
      rfl

end First

/-! ### Runs -/

/-- One call on the world of an encounter: the world after its spends, the turn it reports and what
it delivers. -/
inductive RoundStep (world next : World) : World → Option (EntityId × ℕ) → List Delivery → Prop
  | perform {action : CombatAction} {facts : Option ActionOutcome × TransitionFacts}
      (returned : performActionTracked world action = .ok (facts, next)) :
      RoundStep world next (resolvedUse world action) facts.2.turnStarted
        (logOf (performActionLogged world action))
  | despawn {id : EntityId} {facts : Bool × TransitionFacts}
      (returned : despawnTracked world id = .ok (facts, next)) :
      RoundStep world next (withdrawn world id) facts.2.turnStarted (logOf (despawnLogged world id))
  | requestMode {mode : EncounterMode} (returned : requestMode world mode = .ok next) :
      RoundStep world next world none []
  | tick {facts : TickFacts} (returned : tickTracked world = .ok (facts, next)) :
      RoundStep world next world facts.transitions.turnStarted (logOf (tickLogged world))
  | spawn {data : EntityMeta} {id : EntityId} (returned : world.spawn data = some (id, next)) :
      RoundStep world next world none []
  | register {spec : CreatureSpec} {id : EntityId}
      (returned : registerCreature world spec = .ok (id, next)) :
      RoundStep world next world none []

/-- A run from the start of a turn-based round up to the start of the next: who became active, the
turns that were reported, what was delivered, and the world it reached. The call that opened the
round delivered on the world `entered`. -/
inductive Round (opened entered : World) :
    List EntityId → List (EntityId × ℕ) → List Delivery → World → Prop
  | start {world : World} {spec : EncounterSpec} {facts : StartFacts} {prepared : Prepared}
      (before : Reachable world)
      (enters : published world spec .turnBased = .ok (prepared, entered))
      (returned : startEncounterInModeTracked world spec .turnBased = .ok (facts, opened)) :
      Round opened entered opened.active.toList facts.initialTurn.toList
        (logOf (startEncounterInModeLogged world spec .turnBased)) opened
  | rollover {world : World} {combat : CombatState} {turn : Option (EntityId × ℕ)}
      {log : List Delivery} (before : Reachable world)
      (call : RoundStep world opened entered turn log) (starts : .roundStart ∈ log)
      (present : opened.combat = some combat) (mode : combat.mode = .turnBased) :
      Round opened entered opened.active.toList turn.toList log opened
  | step {world next paid : World} {activations : List EntityId} {turns : List (EntityId × ℕ)}
      {deliveries log : List Delivery} {turn : Option (EntityId × ℕ)}
      (before : Round opened entered activations turns deliveries world)
      (call : RoundStep world next paid turn log) (within : .roundStart ∉ log) :
      Round opened entered (activations ++ (activated world next).toList) (turns ++ turn.toList)
        (deliveries ++ log) next

theorem rtRunning_eq_false {world : World}
    (hmode : ∀ combat, world.combat = some combat → combat.mode = .turnBased) :
    rtRunning world = false := by
  unfold rtRunning
  split
  · rfl
  · next combat hcombat => simp [hmode combat hcombat]

section Runs

variable {world next paid : World} {turn : Option (EntityId × ℕ)} {log : List Delivery}

theorem RoundStep.reachable (hcall : RoundStep world next paid turn log) (hreachable : Reachable world) :
    Reachable next := by
  cases hcall with
  | perform returned => exact .perform hreachable returned
  | despawn returned => exact .despawn hreachable returned
  | requestMode returned => exact .requestMode hreachable returned
  | tick returned => exact .tick hreachable returned
  | spawn returned => exact .spawn hreachable returned
  | register returned => exact .register hreachable returned

/-- Every call outside a running real-time encounter settles the turn order. -/
theorem RoundStep.settles (hcall : RoundStep world next paid turn log) (hreachable : Reachable world)
    (hidle : rtRunning world = false) : Settles world next turn log := by
  have hcoherent := coherent_of_reachable hreachable
  cases hcall with
  | @perform action facts returned =>
    exact performActionLogged_settles hcoherent
      (eq_ok_of_erased ((erased_performActionLogged world action).trans returned))
  | @despawn id facts returned =>
    exact despawnLogged_settles hcoherent
      (eq_ok_of_erased ((erased_despawnLogged world id).trans returned))
  | requestMode returned =>
    simp only [Crpg.Sim.requestMode, bind_ok_iff, pure_ok_iff, Result.okOr_eq_ok_iff] at returned
    obtain ⟨combat, hcombat, _, -, rfl⟩ := returned
    exact settles_of_same rfl (fun _ ↦ Iff.rfl) (active_eq hcombat).symm
      (roundKept_of_eq hcombat rfl rfl rfl)
  | tick returned =>
    exact tickLogged_settles hidle (eq_ok_of_erased ((erased_tickLogged world).trans returned))
  | spawn returned =>
    obtain ⟨_, _, rfl⟩ := spawn_frame returned
    exact settles_of_same rfl (fun _ ↦ Iff.rfl) rfl (roundKept_refl rfl)
  | register returned =>
    obtain ⟨_, _, hspawn, rfl⟩ := registerCreature_frame returned
    obtain ⟨_, _, rfl⟩ := spawn_frame hspawn
    exact settles_of_same rfl (fun _ ↦ Iff.rfl) rfl (roundKept_refl rfl)

/-- The pools after a call are those after its spends with its deliveries applied. Assumes: outside
real-time play, before the call or after it, where a tick runs no orders. -/
theorem RoundStep.refilled (hcall : RoundStep world next paid turn log)
    (hturns : rtRunning world = false ∨
      ∀ combat, next.combat = some combat → combat.mode = .turnBased) : Refilled paid next log := by
  cases hcall with
  | @perform action facts returned =>
    exact performActionLogged_refilled
      (eq_ok_of_erased ((erased_performActionLogged world action).trans returned))
  | @despawn id facts returned =>
    exact despawnLogged_refilled (eq_ok_of_erased ((erased_despawnLogged world id).trans returned))
  | requestMode returned =>
    simp only [Crpg.Sim.requestMode, bind_ok_iff, pure_ok_iff] at returned
    obtain ⟨_, -, _, -, rfl⟩ := returned
    exact .of_eq rfl
  | tick returned =>
    obtain ⟨clocked, staged, hstage, hrefilled, hexecuted, -⟩ :=
      tickLogged_refilled (eq_ok_of_erased ((erased_tickLogged world).trans returned))
    have hidle : rtRunning staged = false := by
      rcases hturns with hstill | hmode
      · have hticked : rtRunning world.advanceTick = false := hstill
        rw [clockStage, hticked] at hstage
        cases hstage
        exact hticked
      · exact rtRunning_eq_false fun combat hcombat ↦
          hmode combat ((executionStage_combat hexecuted).trans hcombat)
    rw [executionStage, hidle] at hexecuted
    cases hexecuted
    exact hrefilled
  | spawn returned =>
    obtain ⟨_, _, rfl⟩ := spawn_frame returned
    exact .of_eq rfl
  | register returned =>
    obtain ⟨_, _, hspawn, rfl⟩ := registerCreature_frame returned
    obtain ⟨_, _, rfl⟩ := spawn_frame hspawn
    exact .of_eq rfl

/-- A call that starts a round found nobody waiting, and killed nobody after that. -/
theorem Settles.finished (hsettles : Settles world next turn log) (hround : .roundStart ∈ log) :
    ∃ mid, Service.Shrinks (turnService world) (turnService mid) ∧ (∀ slot, slot ∉ mid.timeline) ∧
      ∀ id, Living next.combatants id ↔ Living mid.combatants id := by
  cases hsettles with
  | keep => cases hround
  | halt => cases hround
  | @advance mid settled facts log hshrinks hvacates hmid hreturned htimeline hcombatants hcombat =>
    unfold advanceTrackedLogged at hreturned
    split_ifs at hreturned with halive hempty
    · have hnone := Timeline.isEmpty_iff.mp hempty
      have hrollover : Crpg.Sim.rollover mid = .ok (facts, settled) := by
        rw [← erased_rolloverLogged, hreturned]
        rfl
      refine ⟨mid, hshrinks, hnone, fun id ↦ ?_⟩
      rw [hcombatants]
      exact (rollover_transits (fun (_ : True) slot hslot ↦ absurd hslot (hnone slot))
        hrollover).passed.living_iff
    · obtain ⟨_, _, -, -, -, -, -, -, rfl⟩ := nextTurnLogged_spec hreturned
      simp at hround
    · simp only [silent, terminate, Result.bind_assoc, ok_bind, bind_eq_ok_iff, Result.ok.injEq,
        Prod.mk.injEq] at hreturned
      obtain ⟨_, -, rfl, -⟩ := hreturned
      cases hround

theorem Settles.opens (hsettles : Settles world next turn log) (hround : .roundStart ∈ log)
    {combat : CombatState} (hcombat : next.combat = some combat)
    (hmode : combat.mode = .turnBased) : Opens next turn log := by
  cases hsettles with
  | keep => cases hround
  | halt => cases hround
  | @advance mid settled facts log hshrinks hvacates hmid hreturned htimeline hcombatants hsame =>
    have hactive : next.active = settled.active := congrArg (Option.bind · CombatState.active) hsame
    unfold advanceTrackedLogged at hreturned
    split_ifs at hreturned with halive hempty
    · have hopens := rolloverLogged_opens (Timeline.isEmpty_iff.mp hempty) hreturned
        (hsame.symm.trans hcombat) hmode
      refine ⟨⟨?_, ?_, ?_⟩, ?_, ?_, hopens.single⟩
      · rw [htimeline, hcombatants]
        exact hopens.scheduled
      · rw [htimeline, hcombatants]
        exact hopens.keyed
      · rw [hactive, htimeline]
        exact hopens.head
      · rw [hactive, hsame]
        exact hopens.reported
      · rw [hactive]
        exact hopens.delivered
    · obtain ⟨_, _, -, -, -, -, -, -, rfl⟩ := nextTurnLogged_spec hreturned
      simp at hround
    · simp only [silent, terminate, Result.bind_assoc, ok_bind, bind_eq_ok_iff, Result.ok.injEq,
        Prod.mk.injEq] at hreturned
      obtain ⟨_, -, rfl, -⟩ := hreturned
      cases hround

theorem RoundStep.opens (hcall : RoundStep world next paid turn log) (hreachable : Reachable world)
    (hround : .roundStart ∈ log) {combat : CombatState} (hcombat : next.combat = some combat)
    (hmode : combat.mode = .turnBased) : Opens next turn log := by
  have hcoherent := coherent_of_reachable hreachable
  cases hcall with
  | @perform action facts returned =>
    have hlogged := eq_ok_of_erased ((erased_performActionLogged world action).trans returned)
    exact (performActionLogged_settles hcoherent hlogged).opens hround hcombat hmode
  | @despawn id facts returned =>
    have hlogged := eq_ok_of_erased ((erased_despawnLogged world id).trans returned)
    exact (despawnLogged_settles hcoherent hlogged).opens hround hcombat hmode
  | requestMode => cases hround
  | tick returned =>
    have hlogged := eq_ok_of_erased ((erased_tickLogged world).trans returned)
    exact tickLogged_opens hcoherent hlogged hround hcombat hmode
  | spawn => cases hround
  | register => cases hround

end Runs

/-! ### Fairness -/

/-- What holds within a round: the queue was served in order, and every activation was reported and
delivered once. -/
structure Fair (opened entered : World) (round : ℕ) (activations : List EntityId)
    (turns : List (EntityId × ℕ)) (deliveries : List Delivery) (world : World) : Prop where
  opening : Opening opened
  reachable : Reachable world
  encounter : ∀ combat, world.combat = some combat →
    combat.mode = .turnBased ∧ combat.round = round
  served : ∃ served, served.map TurnKey.entity = activations ∧
    (turnService world).Served (turnService opened).waiting served
  reported : turns = activations.map fun id ↦ (id, round)
  delivered : turnStarts deliveries = activations
  single : .turnStartAll ∉ deliveries
  -- The deliveries begin with those of the call that opened the round.
  opens : ∃ first rest, deliveries = first ++ rest ∧ turnStarts first = opened.active.toList ∧
    Refilled entered opened first

section Fairness

variable {opened entered world next paid : World} {round : ℕ} {activations : List EntityId}
variable {turns : List (EntityId × ℕ)} {deliveries log : List Delivery}
variable {turn : Option (EntityId × ℕ)} {combat : CombatState}

theorem fair_of_opens (hreachable : Reachable opened) (hcombat : opened.combat = some combat)
    (hmode : combat.mode = .turnBased) (hopens : Opens opened turn log)
    (hrefilled : Refilled entered opened log) :
    Fair opened entered combat.round opened.active.toList turn.toList log opened where
  opening := hopens.toOpening
  reachable := hreachable
  encounter := by
    intro found hfound
    rw [← Option.some.inj (hcombat.symm.trans hfound)]
    exact ⟨hmode, rfl⟩
  served := by
    have hhead (id : EntityId) (hactive : opened.active = some id) : ∃ slot,
        (turnService opened).current = some slot ∧ slot.entity = id ∧
          IsLeast (turnService opened).waiting slot := by
      obtain ⟨slot, hslot, rfl, hleast⟩ :=
        Timeline.head?_eq_some_iff.mp (hopens.head.symm.trans hactive)
      exact ⟨slot, current_eq_some_iff.mpr ⟨hactive, hslot⟩, rfl, hslot, hleast⟩
    refine ⟨(turnService opened).current.toList, ?_, Service.served_of_least fun slot hslot ↦ ?_⟩
    · cases hactive : opened.active with
      | none => rw [current_eq_none hactive]; rfl
      | some id =>
        obtain ⟨slot, hcurrent, rfl, -⟩ := hhead id hactive
        rw [hcurrent]
        rfl
    · obtain ⟨found, hfound, -, hleast⟩ := hhead _ (current_eq_some_iff.mp hslot).1
      rw [Option.some.inj (hslot.symm.trans hfound)]
      exact hleast
  reported := by
    rw [hopens.reported combat hcombat]
    cases opened.active <;> rfl
  delivered := hopens.delivered
  single := hopens.single
  opens := ⟨log, [], (List.append_nil log).symm, hopens.delivered, hrefilled⟩

theorem Fair.step (hfair : Fair opened entered round activations turns deliveries world)
    (hcall : RoundStep world next paid turn log) (hwithin : .roundStart ∉ log) :
    Fair opened entered round (activations ++ (activated world next).toList) (turns ++ turn.toList)
      (deliveries ++ log) next := by
  have hidle := rtRunning_eq_false fun combat hcombat ↦ (hfair.encounter combat hcombat).1
  obtain ⟨slot, hstep⟩ :=
    turnStep_of_settles (hcall.settles hfair.reachable hidle) hwithin
  obtain ⟨served, hserved, hqueue⟩ := hfair.served
  have hturn := hstep.reported round fun combat hcombat ↦ (hfair.encounter combat hcombat).2
  refine ⟨hfair.opening, hcall.reachable hfair.reachable, ?_, ⟨_, ?_, hqueue.step hstep.step⟩, ?_, ?_,
    ?_, ?_⟩
  · intro combat hcombat
    obtain ⟨before, hbefore, hmode, hround⟩ := hstep.kept combat hcombat
    rw [hmode, hround]
    exact hfair.encounter before hbefore
  · rw [List.map_append, hserved, hstep.activated]
    cases slot <;> rfl
  · rw [hfair.reported, hturn, hstep.activated, List.map_append]
    cases slot <;> rfl
  · rw [turnStarts_append, hfair.delivered, hstep.delivered, hstep.activated]
    cases slot <;> rfl
  · rw [List.mem_append, not_or, hstep.delivered]
    refine ⟨hfair.single, ?_⟩
    cases slot <;> simp
  · obtain ⟨first, rest, hsplit, hopens⟩ := hfair.opens
    exact ⟨first, rest ++ log, by rw [hsplit, List.append_assoc], hopens⟩

theorem fair_of_round (hround : Round opened entered activations turns deliveries world)
    (hcombat : opened.combat = some combat) :
    Fair opened entered combat.round activations turns deliveries world := by
  induction hround with
  | @start world spec facts prepared before enters returned =>
    have hlogged :=
      eq_ok_of_erased ((erased_startEncounterInModeLogged world spec .turnBased).trans returned)
    obtain ⟨found, hfound, hrefilled⟩ := startEncounterInModeLogged_refilled hlogged
    rw [enters, Result.ok.injEq] at hfound
    refine fair_of_opens (.start before returned trivial) hcombat ?_
      (startEncounterInModeLogged_opens (coherent_of_reachable before) hlogged)
      (by rw [← hfound] at hrefilled; exact hrefilled)
    simp only [startEncounterInModeTracked, bind_ok_iff, pure_ok_iff, Prod.mk.injEq] at returned
    obtain ⟨_, -, _, -, _, -, _, -, _, -, _, -, -, rfl⟩ := returned
    rw [← Option.some.inj hcombat]
  | rollover before call starts present mode =>
    obtain rfl := Option.some.inj (hcombat.symm.trans present)
    exact fair_of_opens (call.reachable before) hcombat mode
      (call.opens before starts hcombat mode)
      (call.refilled (Or.inr fun found hfound ↦ by
        rwa [← Option.some.inj (hcombat.symm.trans hfound)]))
  | step _ call within ih => exact ih.step call within

/-- One combatant comes before another in the turn order: by initiative, then by entity. -/
def Precedes (store : ComponentStore Combatant) (id other : EntityId) : Prop :=
  ∃ first second, store.get? id = some first ∧ store.get? other = some second ∧
    (toLex (first.initiative, id) : TurnKey) < toLex (second.initiative, other)

theorem Opening.slot_eq (hopening : Opening opened) {slot : TurnKey}
    (hslot : slot ∈ opened.timeline) : ∃ combatant,
      opened.combatants.get? slot.entity = some combatant ∧ combatant.dead = false ∧
        slot = toLex (combatant.initiative, slot.entity) := by
  obtain ⟨combatant, hget, halive⟩ :=
    (hopening.scheduled _).mp (Timeline.contains_iff.mpr ⟨slot, hslot, rfl⟩)
  refine ⟨combatant, hget, halive, ?_⟩
  rw [← hopening.keyed slot hslot combatant hget]
  rfl

section

variable (hfair : Fair opened entered round activations turns deliveries world)
include hfair

theorem Fair.ordered : activations.Pairwise (Precedes opened.combatants) := by
  obtain ⟨served, rfl, hqueue⟩ := hfair.served
  rw [List.pairwise_map]
  refine hqueue.ordered.imp_of_mem fun hfirst hsecond hlt ↦ ?_
  obtain ⟨first, hgetFirst, -, heqFirst⟩ := hfair.opening.slot_eq (hqueue.opened _ hfirst)
  obtain ⟨second, hgetSecond, -, heqSecond⟩ := hfair.opening.slot_eq (hqueue.opened _ hsecond)
  refine ⟨first, second, hgetFirst, hgetSecond, ?_⟩
  rw [← heqFirst, ← heqSecond]
  exact hlt

/-- Nobody becomes active twice in a round. -/
theorem Fair.nodup : activations.Nodup := by
  refine hfair.ordered.imp fun hprecedes heq ↦ ?_
  obtain ⟨first, second, hfirst, hsecond, hlt⟩ := hprecedes
  subst heq
  rw [Option.some.inj (hfirst.symm.trans hsecond)] at hlt
  exact lt_irrefl _ hlt

theorem Fair.living : ∀ id ∈ activations, Living opened.combatants id := by
  obtain ⟨served, rfl, hqueue⟩ := hfair.served
  intro id hid
  obtain ⟨slot, hslot, rfl⟩ := List.mem_map.mp hid
  obtain ⟨combatant, hget, halive, -⟩ := hfair.opening.slot_eq (hqueue.opened slot hslot)
  exact ⟨combatant, hget, halive⟩

/-- A combatant became active once, or not at all if it does not belong to the activations. -/
theorem Fair.count {id : EntityId} {missed : Prop} (hcovered : id ∈ activations ∨ missed) :
    activations.count id = 1 ∨ activations.count id = 0 ∧ missed := by
  by_cases hmem : id ∈ activations
  · exact Or.inl (List.count_eq_one_of_mem hfair.nodup hmem)
  · exact Or.inr ⟨List.count_eq_zero_of_not_mem hmem, hcovered.resolve_left hmem⟩

/-- A combatant of the opening became active, waits, or dropped out. -/
theorem Fair.covered {id : EntityId} (hliving : Living opened.combatants id) : id ∈ activations ∨
      (world.timeline.contains id = true ∨ ¬Living world.combatants id) := by
  obtain ⟨served, rfl, hqueue⟩ := hfair.served
  obtain ⟨slot, hslot, rfl⟩ := Timeline.contains_iff.mp ((hfair.opening.scheduled id).mpr hliving)
  rcases hqueue.covered slot hslot with hserved | hwaiting | hgone
  · exact Or.inl (List.mem_map_of_mem hserved)
  · exact Or.inr (Or.inl (Timeline.contains_iff.mpr ⟨slot, hwaiting, rfl⟩))
  · exact Or.inr (Or.inr hgone)

theorem Fair.finished (hcall : RoundStep world next paid turn log) (hround : .roundStart ∈ log)
    {id : EntityId} (hliving : Living opened.combatants id) :
    id ∈ activations ∨ ¬Living next.combatants id := by
  have hidle := rtRunning_eq_false fun combat hcombat ↦ (hfair.encounter combat hcombat).1
  obtain ⟨mid, hshrinks, hempty, hsame⟩ :=
    (hcall.settles hfair.reachable hidle).finished hround
  obtain ⟨served, rfl, hqueue⟩ := hfair.served
  obtain ⟨slot, hslot, rfl⟩ := Timeline.contains_iff.mp ((hfair.opening.scheduled id).mpr hliving)
  rcases hqueue.finish hshrinks hempty slot hslot with hserved | hgone
  · exact Or.inl (List.mem_map_of_mem hserved)
  · exact Or.inr fun hliving' ↦ hgone ((hsame _).mp hliving')

theorem Fair.living_active {id : EntityId} (hactive : world.active = some id) :
    Living world.combatants id := by
  obtain ⟨combat, hcombat, hholds⟩ := Option.bind_eq_some_iff.mp hactive
  have hturn := ((coherent_of_reachable hfair.reachable).scheduled combat hcombat).turnBased
    (hfair.encounter combat hcombat).1
  obtain ⟨slot, hslot, rfl⟩ := Timeline.mem_of_head? (hturn.head id hholds)
  exact hturn.living slot hslot

end

end Fairness

end Crpg.Sim
