import Crpg.Sim.Scheduling

/-!
# The schedule holds in every reachable world

One preservation theorem for each operation: an accepted action, a request, a tick with its clock
and execution stages, a despawn, a release, a start and a transfer. `coherent_of_reachable`
assembles them by induction over the operations that lead to a world, and `reachable_schedule` reads
the schedule of its encounter off.

In turn-based play somebody is active while two combatants are alive. With fewer alive the turn can
be held or not, and the timeline can be empty or not: a duel in which the active combatant kills
itself leaves the other scheduled with nobody active, and one in which the other leaves keeps the
active combatant active, alone.
-/

set_option autoImplicit false

namespace Crpg.Sim

open Crpg.Core Crpg.Lib Crpg.Rules Crpg.Data
open Result (bind_eq bind_eq_ok_iff bind_ok_iff expect_eq_ok_iff expect_some failIf_eq_ok_iff
  isOkAnd_iff ok_bind pure_eq pure_ok_iff)
open Timeline (contains_iff mem_insert mem_iter)

/-! ### Validated actions -/

variable {world : World} {actor : EntityId} {combat : CombatState}

theorem living_of_checkActor (hcheck : checkActor world actor = .ok ()) :
    Living world.combatants actor := by
  simp only [checkActor, bind_ok_iff, expect_eq_ok_iff, failIf_eq_ok_iff] at hcheck
  obtain ⟨_, -, _, -, combatant, hget, halive⟩ := hcheck
  exact ⟨combatant, hget, by simpa using halive⟩

theorem living_of_checkPair {target : EntityId} {state : Combatant}
    (hcheck : checkPair world actor target = .ok state) : Living world.combatants actor := by
  simp only [checkPair, bind_ok_iff, pure_eq, expect_eq_ok_iff, failIf_eq_ok_iff] at hcheck
  obtain ⟨_, -, _, -, _, -, _, -, combatant, hget, _, -, _, halive, -⟩ := hcheck
  exact ⟨combatant, hget, by simpa using halive⟩

theorem combat_of_validateAction {action : CombatAction}
    (hvalid : validateAction world action = .ok ()) : ∃ combat, world.combat = some combat := by
  simp only [validateAction, bind_eq, bind_eq_ok_iff, Result.okOr_eq_ok_iff] at hvalid
  exact hvalid.imp fun _ ↦ And.left

theorem validateAction_useAbility {target : EntityId} {ability : Ulid}
    (hcombat : world.combat = some combat)
    (hvalid : validateAction world (.useAbility actor ability target) = .ok ()) :
    Living world.combatants actor ∧ checkTurn world combat actor = .ok () := by
  simp only [validateAction, hcombat, Result.okOr, bind_eq, ok_bind, checkUse, bind_eq_ok_iff]
    at hvalid
  obtain ⟨state, hpair, _, hturn, -⟩ := hvalid
  exact ⟨living_of_checkPair hpair, hturn⟩

theorem validateAction_endTurn (hcombat : world.combat = some combat)
    (hvalid : validateAction world (.endTurn actor) = .ok ()) : combat.mode = .turnBased := by
  simp only [validateAction, hcombat, Result.okOr, bind_eq, ok_bind, bind_eq_ok_iff,
    failIf_eq_ok_iff] at hvalid
  obtain ⟨_, -, _, hmode, -⟩ := hvalid
  cases hcase : combat.mode with
  | turnBased => rfl
  | realTime => exact absurd hcase hmode

theorem validateAction_stop (hcombat : world.combat = some combat)
    (hvalid : validateAction world (.stop actor) = .ok ()) : combat.mode = .realTime := by
  simp only [validateAction, hcombat, Result.okOr, bind_eq, ok_bind, bind_eq_ok_iff] at hvalid
  obtain ⟨_, -, hmode⟩ := hvalid
  cases hcase : combat.mode with
  | turnBased =>
    rw [hcase] at hmode
    cases hmode
  | realTime => rfl

/-! ### Orders -/

section Orders

variable {store : ComponentStore Combatant} {id other : EntityId}
variable {transform : Combatant → Combatant}

/-- A write that kills nobody. -/
theorem living_modify (halive : ∀ combatant, (transform combatant).dead = combatant.dead) :
    Living (store.modify id transform) other ↔ Living store other := by
  unfold Living
  rw [IndexMap.get?_modify]
  cases store.get? other with
  | none => simp
  | some combatant => by_cases hid : other = id <;> simp [hid, halive]

theorem ordersLiving_modify (halive : ∀ combatant, (transform combatant).dead = combatant.dead)
    (horder : ∀ combatant, store.get? id = some combatant →
      (transform combatant).order.isSome = true → combatant.dead = false)
    (horders : OrdersLiving store) : OrdersLiving (store.modify id transform) := by
  intro other combatant hget hsome
  rw [IndexMap.get?_modify] at hget
  split_ifs at hget with hid
  · obtain ⟨old, hold, rfl⟩ := Option.map_eq_some_iff.mp hget
    subst hid
    exact (halive old).trans (horder old hold hsome)
  · exact horders other combatant hget hsome

end Orders

variable {id : EntityId} {next : World} {facts : TransitionFacts} {mode : EncounterMode}

theorem RealTimeSchedule.modifyCombatant {transform : Combatant → Combatant}
    (hreal : RealTimeSchedule world combat)
    (halive : ∀ combatant, (transform combatant).dead = combatant.dead)
    (horder : ∀ combatant, world.combatants.get? id = some combatant →
      (transform combatant).order.isSome = true → combatant.dead = false) :
    RealTimeSchedule (world.modifyCombatant id transform) combat where
  active := hreal.active
  scheduled := fun other ↦ (hreal.scheduled other).trans (living_modify halive).symm
  keys := hreal.keys
  orders := ordersLiving_modify halive horder hreal.orders

theorem coherent_of_realTime (hcombat : world.combat = some combat) (hclocked : Clocked combat)
    (hmode : combat.mode = .realTime) (hreal : RealTimeSchedule world combat) : Coherent world := by
  refine coherent_of_scheduled hcombat ⟨hclocked, fun hturn ↦ ?_, fun _ ↦ hreal⟩
  rw [hmode] at hturn
  cases hturn

theorem coherent_of_turnBased (hcombat : world.combat = some combat) (hclocked : Clocked combat)
    (hmode : combat.mode = .turnBased) (hturn : TurnBasedSchedule world combat) :
    Coherent world := by
  refine coherent_of_scheduled hcombat ⟨hclocked, fun _ ↦ hturn, fun hreal ↦ ?_⟩
  rw [hmode] at hreal
  cases hreal

/-! ### Turn-based actions -/

/-- Dropping the dead leaves the living. Assumes: only combatants are scheduled. -/
theorem scheduledLiving_unscheduleDead (hknown : ∀ slot ∈ world.timeline, ∃ combatant,
      world.combatants.get? slot.entity = some combatant) :
    ScheduledLiving (unscheduleDead world).timeline world.combatants := by
  intro slot hslot
  obtain ⟨hold, hdead⟩ := mem_foldl_remove.mp hslot
  obtain ⟨combatant, hget⟩ := hknown slot hold
  refine ⟨combatant, hget, ?_⟩
  by_contra halive
  rw [Bool.not_eq_false] at halive
  exact hdead (World.mem_deadIds.mpr ⟨combatant, hget, halive⟩)

theorem head?_unscheduleDead {head : EntityId} (hhead : world.timeline.head? = some head)
    (hcontains : (unscheduleDead world).timeline.contains head = true) :
    (unscheduleDead world).timeline.head? = some head := by
  obtain ⟨slot, hslot, rfl, hleast⟩ := Timeline.head?_eq_some_iff.mp hhead
  obtain ⟨kept, hkept, hentity⟩ := contains_iff.mp hcontains
  obtain ⟨hold, -⟩ := mem_foldl_remove.mp hkept
  obtain rfl := Timeline.eq_of_mem hold hslot hentity
  refine Timeline.head?_eq_some_iff.mpr ⟨kept, hkept, rfl, fun other hother ↦ ?_⟩
  exact hleast other (mem_foldl_remove.mp hother).1

theorem Settling.endTurn (hsettling : Settling world combat) : Settling (endTurn world) combat := by
  unfold Crpg.Sim.endTurn
  split
  · exact ⟨hsettling.toClocked, hsettling.present, hsettling.mode, hsettling.living.remove,
      hsettling.orders⟩
  · exact hsettling

/-- A settled use restores the schedule. Assumes: the actor heads the timeline, only combatants are
scheduled and nobody holds an order. -/
theorem settleUse_coherent {ability : Ulid}
    (hsettle : settleUse world actor ability = .ok (facts, next))
    (hcombat : world.combat = some combat) (hclocked : Clocked combat)
    (hmode : combat.mode = .turnBased) (hknown : ∀ slot ∈ world.timeline, ∃ combatant,
      world.combatants.get? slot.entity = some combatant) (horders : NoOrders world.combatants)
    (hhead : world.timeline.head? = some actor) : Coherent next := by
  simp only [settleUse, hcombat, expect_some, bind_eq, ok_bind, pure_eq, bind_eq_ok_iff,
    expect_eq_ok_iff] at hsettle
  obtain ⟨entry, -, hsettle⟩ := hsettle
  have hliving := scheduledLiving_unscheduleDead hknown
  have hsettling : Settling (unscheduleDead world) combat :=
    ⟨hclocked, hcombat, hmode, hliving, horders⟩
  split_ifs at hsettle with hfew hcontains hgone hends
  · cases hsettle
    refine coherent_of_turnBased rfl ⟨hclocked.clock, hclocked.pending⟩ hmode ?_
    refine ⟨fun _ h ↦ (by cases h), fun _ ↦ ?_, hsettling.endTurn.living, hsettling.endTurn.orders⟩
    have hsame : (endTurn (unscheduleDead world)).combatants = world.combatants := by
      unfold endTurn
      split <;> rfl
    change World.rtAlive { endTurn (unscheduleDead world) with combat := _ } < 2
    unfold World.rtAlive World.aliveInStore at hfew ⊢
    dsimp only
    rw [hsame]
    exact hfew
  · cases hsettle
    refine coherent_of_turnBased rfl ⟨hclocked.clock, hclocked.pending⟩ hmode ?_
    exact ⟨fun _ h ↦ (by cases h), fun _ ↦ hfew, hliving, horders⟩
  · exact advanceTracked_coherent hsettling hsettle
  · exact advanceTracked_coherent hsettling.endTurn hsettle
  · cases hsettle
    rw [Bool.not_eq_false] at hgone
    refine coherent_of_turnBased rfl ⟨hclocked.clock, hclocked.pending⟩ hmode ?_
    refine ⟨fun id hid ↦ ?_, fun h ↦ (by cases h), hliving, horders⟩
    rw [← Option.some.inj hid]
    exact head?_unscheduleDead hhead hgone

/-- An accepted action keeps the schedule. -/
theorem performActionTracked_coherent {action : CombatAction}
    {facts : Option ActionOutcome × TransitionFacts} (hcoherent : Coherent world)
    (hperform : performActionTracked world action = .ok (facts, next)) : Coherent next := by
  simp only [performActionTracked, bind_eq, bind_eq_ok_iff] at hperform
  obtain ⟨_, hvalid, hperform⟩ := hperform
  obtain ⟨combat, hcombat⟩ := combat_of_validateAction hvalid
  have hscheduled := hcoherent.scheduled combat hcombat
  cases action with
  | stop actor =>
    have hmode := validateAction_stop hcombat hvalid
    simp only [pure_eq, bind_eq_ok_iff, Result.ok.injEq, Prod.mk.injEq] at hperform
    obtain ⟨_, -, -, rfl⟩ := hperform
    exact coherent_of_realTime hcombat hscheduled.toClocked hmode
      ((hscheduled.realTime hmode).modifyCombatant (fun _ ↦ rfl) nofun)
  | endTurn actor =>
    have hmode := validateAction_endTurn hcombat hvalid
    have hturn := hscheduled.turnBased hmode
    simp only [pure_eq, bind_eq_ok_iff, Result.ok.injEq, Prod.mk.injEq] at hperform
    obtain ⟨⟨_, after⟩, hadvance, -, rfl⟩ := hperform
    have hsettling : Settling (unscheduleDead world) combat := by
      refine ⟨hscheduled.toClocked, hcombat, hmode, ?_, hturn.orders⟩
      exact fun slot hslot ↦ hturn.living slot (mem_foldl_remove.mp hslot).1
    exact advanceTracked_coherent hsettling.endTurn hadvance
  | useAbility actor ability target =>
    obtain ⟨hactor, hcheck⟩ := validateAction_useAbility hcombat hvalid
    simp only [hcombat, expect_some, ok_bind, pure_eq] at hperform
    split at hperform
    · next hmode =>
      simp only [bind_eq_ok_iff, Result.ok.injEq, Prod.mk.injEq] at hperform
      obtain ⟨entry, -, _, -, -, rfl⟩ := hperform
      refine coherent_of_realTime hcombat hscheduled.toClocked hmode
        ((hscheduled.realTime hmode).modifyCombatant (fun _ ↦ rfl) fun combatant hget _ ↦ ?_)
      obtain ⟨_, hfound, halive⟩ := hactor
      rw [hget, Option.some.injEq] at hfound
      exact hfound ▸ halive
    · next hmode =>
      have hturn := hscheduled.turnBased hmode
      simp only [bind_eq_ok_iff, Result.ok.injEq, Prod.mk.injEq] at hperform
      obtain ⟨⟨outcome, resolved⟩, hresolve, ⟨_, after⟩, hsettle, -, rfl⟩ := hperform
      obtain ⟨_, _, _, combatants, rfl, hkept, -⟩ := resolveUse_frame hresolve
      simp only [checkTurn, hmode, failIf_eq_ok_iff, not_not] at hcheck
      refine settleUse_coherent hsettle hcombat hscheduled.toClocked hmode (fun slot hslot ↦ ?_)
        (noOrders_of_kept hkept hturn.orders) (hturn.head actor hcheck)
      obtain ⟨old, hold, -⟩ := hturn.living slot hslot
      obtain ⟨new, hnew, -⟩ := hkept.get?_eq_some' hold
      exact ⟨new, hnew⟩

/-- A request keeps the schedule: a pending mode is another one than the current. -/
theorem requestMode_coherent (hcoherent : Coherent world)
    (hrequest : requestMode world mode = .ok next) : Coherent next := by
  simp only [requestMode, bind_ok_iff, pure_ok_iff, Result.okOr_eq_ok_iff] at hrequest
  obtain ⟨combat, hcombat, _, -, rfl⟩ := hrequest
  obtain ⟨hclocked, hturn, hreal⟩ := hcoherent.scheduled combat hcombat
  refine coherent_of_scheduled rfl ⟨⟨hclocked.clock, ?_⟩, fun hmode ↦ ?_, fun hmode ↦ ?_⟩
  · dsimp only
    split_ifs with hsame
    · exact fun h ↦ by cases h
    · simpa using hsame
  · obtain ⟨hhead, hrunning, hliving, horders⟩ := hturn hmode
    exact ⟨hhead, hrunning, hliving, horders⟩
  · obtain ⟨hactive, hcontains, hkeys, horders⟩ := hreal hmode
    exact ⟨hactive, hcontains, hkeys, horders⟩

/-! ### The tick -/

theorem RealTimeSchedule.advanceClock (hreal : RealTimeSchedule world combat)
    (clock : EncounterClock) (new : ℕ) : RealTimeSchedule (deliverClockAdvance { world with
        combat := some { combat with clock := some { clock with elapsed := new } } }
      clock.elapsed new) { combat with clock := some { clock with elapsed := new } } := by
  have hstood := deliverClockAdvance_stood { world with
    combat := some { combat with clock := some { clock with elapsed := new } } } clock.elapsed new
  exact ⟨hreal.active, fun id ↦ (hreal.scheduled id).trans (living_iff_of_stood hstood).symm,
    hreal.keys, ordersLiving_of_stood hstood hreal.orders⟩

theorem roundBoundary_coherent (hcombat : world.combat = some combat) (hclocked : Clocked combat)
    (hmode : combat.mode = .realTime) (hreal : RealTimeSchedule world combat)
    (hboundary : roundBoundary world = .ok (facts, next)) : Coherent next := by
  simp only [roundBoundary, hcombat, expect_some, bind_eq, ok_bind, pure_eq] at hboundary
  have htaken : RealTimeSchedule
      { world with combat := some { combat with pendingMode := none } }
      { combat with pendingMode := none } :=
    ⟨hreal.active, hreal.scheduled, hreal.keys, hreal.orders⟩
  have htakenClock : Clocked { combat with pendingMode := none } := ⟨hclocked.clock, nofun⟩
  split_ifs at hboundary with hpending
  · obtain ⟨⟨turn, after⟩, hswitch, hnext⟩ := bind_eq_ok_iff.mp hboundary
    cases hnext
    exact switchToTurnBased_coherent rfl htakenClock rfl htaken hswitch
  · obtain ⟨⟨round, after⟩, hstart, hnext⟩ := bind_eq_ok_iff.mp hboundary
    cases hnext
    exact rtRoundStart_coherent rfl htakenClock hmode htaken hstart

theorem rtRunning_iff : rtRunning world = true ↔
    ∃ combat clock, world.combat = some combat ∧ combat.mode = .realTime ∧
      combat.clock = some clock ∧ clock.elapsed < rtClockMax ∧ 2 ≤ world.rtAlive := by
  unfold rtRunning
  cases world.combat with
  | none => simp
  | some combat => simp [Option.any_eq_true, and_assoc, ← exists_and_left, ← exists_and_right]

theorem clockStage_coherent (hcoherent : Coherent world)
    (hstage : clockStage world = .ok (facts, next)) : Coherent next := by
  unfold clockStage at hstage
  split_ifs at hstage with hrunning
  · obtain ⟨combat, clock, hcombat, hmode, hclock, hbound, -⟩ := rtRunning_iff.mp hrunning
    have hscheduled := hcoherent.scheduled combat hcombat
    have hreal := hscheduled.realTime hmode
    have hclocked :
        Clocked { combat with clock := some { clock with elapsed := clock.elapsed + 1 } } := by
      refine ⟨fun other hother ↦ ?_, hscheduled.pending⟩
      rw [← Option.some.inj hother]
      exact hbound
    simp only [hcombat, hclock, expect_some, bind_eq, ok_bind, pure_eq] at hstage
    have hadvanced := hreal.advanceClock clock (clock.elapsed + 1)
    split_ifs at hstage with hend hinside
    · cases hstage
      exact coherent_of_realTime rfl hclocked hmode
        ⟨hreal.active, hreal.scheduled, hreal.keys, hreal.orders⟩
    · obtain ⟨_, -, hstage⟩ := bind_eq_ok_iff.mp hstage
      cases hstage
      exact coherent_of_realTime rfl hclocked hmode hadvanced
    · obtain ⟨_, -, hstage⟩ := bind_eq_ok_iff.mp hstage
      exact roundBoundary_coherent rfl hclocked hmode hadvanced hstage
  · cases hstage
    exact hcoherent

theorem RealTimeSchedule.buryDead {resolved : World} (hreal : RealTimeSchedule world combat)
    (hkept : Kept world.combatants resolved.combatants)
    (htimeline : resolved.timeline = world.timeline) :
    RealTimeSchedule (buryDead resolved) combat := by
  have hburied (id : EntityId) :
      Living (Crpg.Sim.buryDead resolved).combatants id ↔ Living resolved.combatants id := by
    unfold Crpg.Sim.buryDead Living
    dsimp only
    rw [IndexMap.get?_mapValues]
    cases resolved.combatants.get? id with
    | none => simp
    | some combatant => cases hdead : combatant.dead <;> simp [hdead]
  refine ⟨hreal.active, fun id ↦ ?_, fun slot hslot ↦ ?_, fun id combatant hget horder ↦ ?_⟩
  · rw [hburied, contains_iff]
    constructor
    · rintro ⟨slot, hslot, rfl⟩
      refine scheduledLiving_unscheduleDead (fun other hother ↦ ?_) slot hslot
      rw [htimeline] at hother
      obtain ⟨old, hold, -⟩ := (hreal.scheduled _).mp (contains_iff.mpr ⟨other, hother, rfl⟩)
      obtain ⟨new, hnew, -⟩ := hkept.get?_eq_some' hold
      exact ⟨new, hnew⟩
    · intro hliving
      obtain ⟨slot, hslot, rfl⟩ := contains_iff.mp
        ((hreal.scheduled id).mpr (living_of_kept hkept hliving))
      refine ⟨slot, mem_foldl_remove.mpr ⟨htimeline ▸ hslot, fun hdead ↦ ?_⟩, rfl⟩
      obtain ⟨combatant, hget, halive⟩ := hliving
      obtain ⟨_, hfound, hdead⟩ := World.mem_deadIds.mp hdead
      rw [hget, Option.some.injEq] at hfound
      rw [hfound, hdead] at halive
      cases halive
  · exact hreal.keys slot (htimeline ▸ (mem_foldl_remove.mp hslot).1)
  · change ((resolved.combatants.mapValues _).get? id) = _ at hget
    rw [IndexMap.get?_mapValues, Option.map_eq_some_iff] at hget
    obtain ⟨old, -, rfl⟩ := hget
    split_ifs at horder ⊢ with hdead
    · cases horder
    · simpa using hdead

theorem rekeyActor_realTime {order : StandingOrder} {key : ℕ}
    (hreal : RealTimeSchedule world combat) (hrekey : rekeyActor world actor order key = .ok next) :
    RealTimeSchedule next combat ∧ next.combat = world.combat := by
  unfold rekeyActor at hrekey
  split at hrekey
  · next halive =>
    obtain ⟨_, -, hnext⟩ := bind_eq_ok_iff.mp hrekey
    have hliving : Living world.combatants actor := by
      rw [Option.any_eq_true] at halive
      obtain ⟨combatant, hget, halive⟩ := halive
      exact ⟨combatant, hget, by simpa using halive⟩
    have hkeyed : RealTimeSchedule
        { world with timeline := world.timeline.insert key actor } combat := by
      refine ⟨hreal.active, fun id ↦ ?_, fun slot hslot ↦ ?_, hreal.orders⟩
      · rw [contains_insert, hreal.scheduled id]
        exact ⟨fun hscheduled ↦ hscheduled.elim (fun heq ↦ heq ▸ hliving) (fun hold ↦ hold), Or.inr⟩
      · rcases mem_insert.mp hslot with rfl | ⟨hold, -⟩
        · exact Int.natCast_nonneg key
        · exact hreal.keys slot hold
    dsimp only at hnext
    split_ifs at hnext with hrepeats
    · cases hnext
      exact ⟨hkeyed, rfl⟩
    · cases hnext
      exact ⟨hkeyed.modifyCombatant (fun _ ↦ rfl) fun _ _ h ↦ (by cases h), rfl⟩
  · cases hrekey
    exact ⟨hreal, rfl⟩

theorem executeOrder_realTime {elapsed roundTicks : ℕ} {order : StandingOrder} {event : TickEvent}
    (hreal : RealTimeSchedule world combat)
    (hexecute : executeOrder elapsed roundTicks world actor order = .ok (event, next)) :
    RealTimeSchedule next combat ∧ next.combat = world.combat := by
  unfold executeOrder at hexecute
  split at hexecute
  · cases hexecute
  · cases hexecute
    exact ⟨hreal.modifyCombatant (fun _ ↦ rfl) nofun, rfl⟩
  · simp only [bind_ok_iff, pure_ok_iff, Prod.mk.injEq] at hexecute
    obtain ⟨_, -, entry, -, ⟨outcome, resolved⟩, hresolve, rekeyed, hrekey, -, rfl⟩ := hexecute
    obtain ⟨_, _, _, combatants, heq, hkept, -⟩ := resolveUse_frame hresolve
    have hkept : Kept world.combatants resolved.combatants := by rwa [heq]
    have htimeline : resolved.timeline = world.timeline := by rw [heq]
    have hcombat : resolved.combat = world.combat := by rw [heq]
    obtain ⟨hrekeyed, hsame⟩ := rekeyActor_realTime (hreal.buryDead hkept htimeline) hrekey
    exact ⟨hrekeyed, hsame.trans hcombat⟩

theorem executionStage_coherent {before : TransitionFacts} {facts : TickFacts}
    (hcoherent : Coherent world) (hstage : executionStage world before = .ok (facts, next)) :
    Coherent next := by
  refine (executionStage_induct (motive := fun _ state ↦
    Coherent state ∧ state.combat = world.combat) ⟨hcoherent, rfl⟩ ?_ hstage).1.1
  intro _ _ _ state after actor order event hstate hrunning _ hexecute
  obtain ⟨combat, _, hcombat, hmode, -⟩ := rtRunning_iff.mp hrunning
  have hbefore := hstate.2.trans hcombat
  have hscheduled := hstate.1.scheduled combat hbefore
  -- The pass keeps the encounter as it is, so the schedule is about one state throughout.
  obtain ⟨hreal, hsame⟩ := executeOrder_realTime (hscheduled.realTime hmode) hexecute
  exact ⟨coherent_of_realTime (hsame.trans hbefore) hscheduled.toClocked hmode hreal,
    hsame.trans hstate.2⟩

theorem tickTracked_coherent {facts : TickFacts} (hcoherent : Coherent world)
    (htick : tickTracked world = .ok (facts, next)) : Coherent next := by
  unfold tickTracked at htick
  obtain ⟨⟨_, staged⟩, hclock, hexecute⟩ := bind_eq_ok_iff.mp htick
  have hadvanced : Coherent world.advanceTick := hcoherent.congr rfl rfl rfl
  exact executionStage_coherent (clockStage_coherent hadvanced hclock) hexecute

/-! ### Leaving -/

theorem Coherent.scheduledLiving (hcoherent : Coherent world) :
    ScheduledLiving world.timeline world.combatants := by
  intro slot hslot
  cases hcombat : world.combat with
  | none =>
    have hempty := (hcoherent.released hcombat).2
    rw [← mem_iter, hempty] at hslot
    cases hslot
  | some combat =>
    have hscheduled := hcoherent.scheduled combat hcombat
    cases hmode : combat.mode with
    | turnBased => exact (hscheduled.turnBased hmode).living slot hslot
    | realTime =>
      exact ((hscheduled.realTime hmode).scheduled _).mp
        (contains_iff.mpr ⟨slot, hslot, rfl⟩)

/-- Nothing is scheduled where nobody fights. -/
theorem iter_eq_nil {timeline : Timeline} {store : ComponentStore Combatant}
    (hliving : ScheduledLiving timeline store) (hempty : store.keys = []) : timeline.iter = [] := by
  refine List.eq_nil_iff_forall_not_mem.mpr fun slot hslot ↦ ?_
  obtain ⟨combatant, hget, -⟩ := hliving slot hslot
  have hmem := IndexMap.mem_keys_iff.mpr ⟨combatant, hget⟩
  rw [hempty] at hmem
  cases hmem

/-- An entity that does not hold the turn leaves the schedule as it is for the others. -/
theorem strip_coherent {entities : GenerationalArena EntityMeta} (hcoherent : Coherent world)
    (hactive : world.combat.bind CombatState.active ≠ some id) :
    Coherent (strip world entities id) := by
  refine ⟨fun combat hcombat ↦ ?_, fun hnone ↦ ?_⟩
  · change world.combat = some combat at hcombat
    rw [hcombat] at hactive
    obtain ⟨hclocked, hturn, hreal⟩ := hcoherent.scheduled combat hcombat
    refine ⟨hclocked, fun hmode ↦ ?_, fun hmode ↦ ?_⟩
    · obtain ⟨hhead, hrunning, hliving, horders⟩ := hturn hmode
      refine ⟨fun head hsome ↦ head?_remove (hhead head hsome) ?_, fun hnone ↦ ?_,
        hliving.shiftRemove, noOrders_shiftRemove horders⟩
      · rintro rfl
        exact hactive hsome
      · exact (World.rtAlive_shiftRemove_le rfl).trans_lt (hrunning hnone)
    · obtain ⟨hidle, hcontains, hkeys, horders⟩ := hreal hmode
      refine ⟨hidle, fun other ↦ ?_, fun slot hslot ↦ ?_, ordersLiving_shiftRemove horders⟩
      · exact contains_remove.trans ((and_congr_left fun _ ↦ hcontains other).trans
          living_shiftRemove.symm)
      · exact hkeys slot (Timeline.mem_remove.mp hslot).1
  · obtain ⟨hkeys, hiter⟩ := hcoherent.released hnone
    have hempty : (world.combatants.shiftRemove id).keys = [] := by
      rw [IndexMap.keys_shiftRemove, hkeys, List.filter_nil]
    exact ⟨hempty, iter_eq_nil hcoherent.scheduledLiving.shiftRemove hempty⟩

/-- A world without an encounter, where nobody fights and nothing is scheduled. -/
theorem coherent_of_released (hcombat : world.combat = none) (hkeys : world.combatants.keys = [])
    (hiter : world.timeline.iter = []) : Coherent world := by
  refine ⟨fun combat hsome ↦ ?_, fun _ ↦ ⟨hkeys, hiter⟩⟩
  rw [hcombat] at hsome
  cases hsome

theorem settleDespawn_coherent {entities : GenerationalArena EntityMeta}
    (hcoherent : Coherent world)
    (hsettle : settleDespawn (strip world entities id) world.combat id = .ok (facts, next)) :
    Coherent next := by
  unfold settleDespawn at hsettle
  split_ifs at hsettle with hempty hactive
  · cases hsettle
    have hkeys := IndexMap.isEmpty_iff.mp hempty
    exact coherent_of_released rfl hkeys (iter_eq_nil hcoherent.scheduledLiving.shiftRemove hkeys)
  · obtain ⟨combat, hcombat, hholds⟩ := Option.bind_eq_some_iff.mp hactive
    change world.combat = some combat at hcombat
    obtain ⟨hclocked, hturn, hreal⟩ := hcoherent.scheduled combat hcombat
    cases hmode : combat.mode with
    | turnBased =>
      have hsettling : Settling (strip world entities id) combat :=
        ⟨hclocked, hcombat, hmode, (hturn hmode).living.shiftRemove,
          noOrders_shiftRemove (hturn hmode).orders⟩
      exact advanceTracked_coherent hsettling hsettle
    | realTime =>
      rw [(hreal hmode).active] at hholds
      cases hholds
  · cases hsettle
    exact strip_coherent hcoherent hactive

theorem despawnTracked_coherent {facts : Bool × TransitionFacts} (hcoherent : Coherent world)
    (hdespawn : despawnTracked world id = .ok (facts, next)) : Coherent next := by
  unfold despawnTracked at hdespawn
  split at hdespawn
  · cases hdespawn
    exact hcoherent
  · obtain ⟨⟨_, settled⟩, hsettle, hnext⟩ := bind_eq_ok_iff.mp hdespawn
    simp only [Result.ok.injEq, Prod.mk.injEq] at hnext
    obtain ⟨-, rfl⟩ := hnext
    exact (settleDespawn_coherent hcoherent hsettle).congr rfl rfl rfl

theorem release_timeline (combat : CombatState) (world : World) (entry : EntityId × Combatant) :
    (release combat world entry).timeline = world.timeline.remove entry.1 := by
  unfold release
  dsimp only
  split <;> rfl

theorem release_combatants (combat : CombatState) (world : World) (entry : EntityId × Combatant) :
    (release combat world entry).combatants = world.combatants.shiftRemove entry.1 := by
  unfold release
  dsimp only
  split <;> rfl

theorem keys_foldl_release (combat : CombatState) (entries : List (EntityId × Combatant))
    (world : World) : (entries.foldl (release combat) world).combatants.keys =
      world.combatants.keys.filter fun key ↦ key ∉ entries.map Prod.fst := by
  induction entries generalizing world with
  | nil => simp
  | cons entry rest ih =>
    rw [List.foldl_cons, ih, release_combatants, IndexMap.keys_shiftRemove, List.filter_filter]
    congr 1
    ext key
    simp only [List.map_cons, List.mem_cons, not_or, Bool.decide_and, Bool.and_comm]

theorem scheduledLiving_foldl_release {entries : List (EntityId × Combatant)}
    (hliving : ScheduledLiving world.timeline world.combatants) :
    ScheduledLiving (entries.foldl (release combat) world).timeline
      (entries.foldl (release combat) world).combatants := by
  induction entries generalizing world with
  | nil => exact hliving
  | cons entry rest ih =>
    refine ih ?_
    rw [release_timeline, release_combatants]
    exact hliving.shiftRemove

/-- A release leaves nobody fighting and nothing scheduled. -/
theorem endEncounter_coherent {summary : EncounterSummary} (hcoherent : Coherent world)
    (hend : endEncounter world = .ok (summary, next)) : Coherent next := by
  simp only [endEncounter, bind_ok_iff, pure_ok_iff, Prod.mk.injEq] at hend
  obtain ⟨combat, -, -, rfl⟩ := hend
  have hkeys : (world.combatants.entries.foldl (release combat) world).combatants.keys = [] := by
    rw [keys_foldl_release, List.filter_eq_nil_iff]
    intro key hkey
    simpa [IndexMap.keys] using hkey
  exact coherent_of_released rfl hkeys
    (iter_eq_nil (scheduledLiving_foldl_release hcoherent.scheduledLiving) hkeys)

/-! ### Entering -/

theorem spawn_frame {data : EntityMeta} (hspawn : world.spawn data = some (id, next)) :
    ∃ entities events, next = { world with entities := entities, events := events } := by
  obtain ⟨minted, -, hnext⟩ := Option.map_eq_some_iff.mp hspawn
  simp only [Prod.mk.injEq] at hnext
  exact ⟨_, _, hnext.2.symm⟩

theorem spawn_coherent {data : EntityMeta} (hcoherent : Coherent world)
    (hspawn : world.spawn data = some (id, next)) : Coherent next := by
  obtain ⟨_, _, rfl⟩ := spawn_frame hspawn
  exact hcoherent.congr rfl rfl rfl

theorem registerCreature_frame {spec : CreatureSpec}
    (hregister : registerCreature world spec = .ok (id, next)) :
    ∃ spawned record, world.spawn {} = some (id, spawned) ∧
      next = { spawned with creatures := spawned.creatures.insert id record } := by
  cases harea : world.area with
  | none =>
    simp only [registerCreature, harea, bind_ok_iff, pure_ok_iff, expect_eq_ok_iff, Prod.mk.injEq]
      at hregister
    obtain ⟨_, -, _, -, _, -, _, -, _, -, _, -, _, -, spawned, hspawn, rfl, rfl⟩ := hregister
    exact ⟨spawned.2, _, hspawn, rfl⟩
  | some area =>
    simp only [registerCreature, harea, bind_ok_iff, pure_ok_iff, expect_eq_ok_iff, Prod.mk.injEq]
      at hregister
    obtain ⟨_, -, _, -, _, -, _, -, _, -, _, -, _, -, _, -, spawned, hspawn, rfl, rfl⟩ := hregister
    exact ⟨spawned.2, _, hspawn, rfl⟩

theorem registerCreature_coherent {spec : CreatureSpec} (hcoherent : Coherent world)
    (hregister : registerCreature world spec = .ok (id, next)) : Coherent next := by
  obtain ⟨spawned, record, hspawn, rfl⟩ := registerCreature_frame hregister
  exact (spawn_coherent hcoherent hspawn).congr rfl rfl rfl

/-- An encounter in the making: every published participant is alive, without an order, and
scheduled. -/
structure Publishing (mode : EncounterMode) (world : World) : Prop where
  scheduled : ∀ id, world.timeline.contains id = true ↔ Living world.combatants id
  orders : NoOrders world.combatants
  keys : mode = .realTime → ∀ slot ∈ world.timeline, 0 ≤ slot.key

theorem publish_publishing {combatant : Combatant} (hpublishing : Publishing mode world)
    (halive : combatant.dead = false) (horder : combatant.order = none) :
    Publishing mode (publish mode world id combatant) := by
  refine ⟨fun other ↦ contains_insert.trans ?_, fun other found hget ↦ ?_, fun hmode slot hslot ↦ ?_⟩
  · rw [hpublishing.scheduled]
    unfold Living publish
    dsimp only
    rw [IndexMap.get?_insert]
    by_cases hother : other = id
    · simp [hother, halive]
    · simp [hother]
  · change (world.combatants.insert id combatant).get? other = some found at hget
    rw [IndexMap.get?_insert] at hget
    split_ifs at hget
    · exact Option.some.inj hget ▸ horder
    · exact hpublishing.orders other found hget
  · rcases mem_insert.mp hslot with rfl | ⟨hold, -⟩
    · rw [hmode]
      exact le_rfl
    · exact hpublishing.keys hmode slot hold

variable {definition : CombatDefinition} {spec : EncounterSpec}

theorem publishMember_publishing {entry : Pending × Source} (hpublishing : Publishing mode world)
    (hpublish : publishMember mode definition world entry = .ok next) : Publishing mode next := by
  unfold publishMember at hpublish
  split at hpublish
  · cases hpublish
    exact hpublishing
  · simp only [bind_ok_iff, pure_ok_iff] at hpublish
    obtain ⟨record, -, entered, henter, rfl⟩ := hpublish
    unfold enterCombatant at henter
    split at henter
    · cases henter
    · cases henter
      refine publish_publishing ?_ rfl rfl
      exact ⟨hpublishing.scheduled, hpublishing.orders, hpublishing.keys⟩
  · simp only [freshCombatant, bind_ok_iff, pure_ok_iff, expect_eq_ok_iff] at hpublish
    obtain ⟨⟨id, spawned⟩, hspawn, combatant, ⟨_, -, _, -, rfl⟩, rfl⟩ := hpublish
    obtain ⟨_, _, rfl⟩ := spawn_frame hspawn
    refine publish_publishing ?_ rfl rfl
    exact ⟨hpublishing.scheduled, hpublishing.orders, hpublishing.keys⟩

theorem rollInitiative_frame {sources rolled : List (Pending × Source)}
    (hroll : rollInitiative world definition sources = .ok (next, rolled)) :
    ∃ rng, next = { world with rng := rng } := by
  unfold rollInitiative at hroll
  split at hroll
  · cases hroll
    exact ⟨world.rng, rfl⟩
  · simp only [bind_ok_iff, pure_ok_iff, Prod.mk.injEq] at hroll
    obtain ⟨_, -, folded, -, rfl, -⟩ := hroll
    exact ⟨_, rfl⟩

/-- A start begins without an encounter. -/
theorem combat_eq_none_of_prepare {prepared : Prepared}
    (hprepare : prepare world spec mode = .ok prepared) : world.combat = none := by
  simp only [prepare, checkBounds, bind_ok_iff, failIf_eq_ok_iff, Result.panicIf_eq_ok_iff]
    at hprepare
  obtain ⟨_, ⟨_, hcombat, -⟩, -⟩ := hprepare
  simpa using hcombat

theorem clock_of_prepare {prepared : Prepared} (hprepare : prepare world spec mode = .ok prepared) :
    ∀ clock, prepared.clock = some clock → clock.elapsed = 0 := by
  simp only [prepare, bind_ok_iff, pure_ok_iff] at hprepare
  obtain ⟨_, -, _, -, _, -, _, -, _, -, _, -, _, -, _, -, _, -, _, -, _, -, _, -, _, -, _, -, _, -,
    rfl⟩ := hprepare
  intro clock hclock
  obtain ⟨ticks, -, rfl⟩ := Option.map_eq_some_iff.mp hclock
  rfl

theorem firstTurn_scheduled {active : Option EntityId}
    (hfirst : firstTurn mode world = .ok (active, next)) (hpublishing : Publishing mode world)
    (hclocked : Clocked combat) (hmode : combat.mode = mode) (hactive : combat.active = active) :
    Scheduled { next with combat := some combat } combat := by
  unfold firstTurn at hfirst
  cases mode with
  | realTime =>
    cases hfirst
    refine ⟨hclocked, fun hturn ↦ ?_, fun _ ↦ ⟨hactive, hpublishing.scheduled,
      hpublishing.keys rfl, ordersLiving_of_noOrders hpublishing.orders⟩⟩
    rw [hmode] at hturn
    cases hturn
  | turnBased =>
    refine ⟨hclocked, fun _ ↦ ?_, fun hreal ↦ ?_⟩
    · dsimp only at hfirst
      have hliving : ScheduledLiving world.timeline world.combatants := fun slot hslot ↦
        (hpublishing.scheduled _).mp (contains_iff.mpr ⟨slot, hslot, rfl⟩)
      split at hfirst
      · next hhead =>
        cases hfirst
        refine ⟨fun id hid ↦ ?_, fun _ ↦ ?_, hliving, hpublishing.orders⟩
        · rw [hactive] at hid
          cases hid
        · have hnone (id : EntityId) : ¬Living world.combatants id := by
            rw [← hpublishing.scheduled, contains_iff]
            rintro ⟨slot, hslot, -⟩
            exact Timeline.head?_eq_none_iff.mp hhead slot hslot
          exact (World.rtAlive_eq_zero hnone).trans_lt Nat.zero_lt_two
      · next head hhead =>
        obtain ⟨_, -, hnext⟩ := bind_eq_ok_iff.mp hfirst
        cases hnext
        have hstood := refreshOne_stood world head .turnStart
        refine ⟨fun id hid ↦ ?_, fun hnone ↦ ?_, scheduledLiving_of_stood hstood hliving,
          noOrders_of_kept hstood.kept hpublishing.orders⟩
        · rw [hactive] at hid
          exact Option.some.inj hid ▸ hhead
        · rw [hactive] at hnone
          cases hnone
    · rw [hmode] at hreal
      cases hreal

theorem foldlM_publishing {published : World} {members : List (Pending × Source)}
    (hcoherent : Coherent world) (hnone : world.combat = none)
    (hpublish : Result.foldlM (publishMember mode definition) world members = .ok published) :
    Publishing mode published := by
  obtain ⟨hkeys, hiter⟩ := hcoherent.released hnone
  refine Result.foldlM_preserves (motive := Publishing mode) ?_ ?_ hpublish
  · intro entry _ state after hstate hafter
    exact publishMember_publishing hstate hafter
  · have hnobody (id : EntityId) (combatant : Combatant) :
        world.combatants.get? id ≠ some combatant := fun hget ↦ by
      have hmem := IndexMap.mem_keys_iff.mpr ⟨combatant, hget⟩
      rw [hkeys] at hmem
      cases hmem
    have hempty (slot : TurnKey) : slot ∉ world.timeline := by
      rw [← mem_iter, hiter]
      exact List.not_mem_nil
    refine ⟨fun id ↦ ⟨fun hcontains ↦ ?_, fun hliving ↦ ?_⟩, fun id combatant hget ↦ ?_,
      fun _ slot hslot ↦ absurd hslot (hempty slot)⟩
    · obtain ⟨slot, hslot, -⟩ := contains_iff.mp hcontains
      exact absurd hslot (hempty slot)
    · obtain ⟨combatant, hget, -⟩ := hliving
      exact absurd hget (hnobody id combatant)
    · exact absurd hget (hnobody id combatant)

theorem startEncounterInModeTracked_coherent {facts : StartFacts} (hcoherent : Coherent world)
    (hstart : startEncounterInModeTracked world spec mode = .ok (facts, next)) : Coherent next := by
  simp only [startEncounterInModeTracked, bind_ok_iff, pure_ok_iff, Prod.mk.injEq] at hstart
  obtain ⟨prepared, hprepare, sources, -, _, -, ⟨rolled, members⟩, hroll, published, hpublish,
    ⟨active, first⟩, hfirst, -, rfl⟩ := hstart
  have hnone := combat_eq_none_of_prepare hprepare
  obtain ⟨_, rfl⟩ := rollInitiative_frame hroll
  have hpublishing : Publishing mode published := by
    refine foldlM_publishing ?_ ?_ hpublish
    · exact hcoherent.congr rfl rfl rfl
    · exact hnone
  refine coherent_of_scheduled rfl (firstTurn_scheduled hfirst
    ⟨hpublishing.scheduled, hpublishing.orders, hpublishing.keys⟩ ⟨?_, nofun⟩ rfl rfl)
  intro clock hclock
  rw [clock_of_prepare hprepare clock hclock]
  exact Nat.zero_le rtClockMax

/-! ### Reachable worlds -/

theorem new_coherent (seed : UInt64) (area : Option Ulid) :
    Coherent { World.new seed with area := area } :=
  coherent_of_released rfl rfl rfl

theorem transferEntity_coherent {source destination left entered : World} {entity moved : EntityId}
    (hsource : Coherent source) (hdestination : Coherent destination)
    (htransfer : transferEntity source destination entity = .ok (moved, left, entered)) :
    Coherent left ∧ Coherent entered := by
  obtain ⟨-, ⟨_, hremoved⟩, _, spawned, hspawn, rfl⟩ := transferEntity_cases htransfer
  exact ⟨despawnTracked_coherent hsource hremoved,
    (spawn_coherent hdestination hspawn).congr rfl rfl rfl⟩

theorem coherent_of_reachable (hreachable : Reachable world) : Coherent world := by
  induction hreachable with
  | new seed => exact new_coherent seed none
  | newInArea seed area => exact new_coherent seed (some area)
  | spawn _ returned ih => exact spawn_coherent ih returned
  | despawn _ returned ih => exact despawnTracked_coherent ih returned
  | register _ returned ih => exact registerCreature_coherent ih returned
  | start _ returned _ ih => exact startEncounterInModeTracked_coherent ih returned
  | perform _ returned ih => exact performActionTracked_coherent ih returned
  | requestMode _ returned ih => exact requestMode_coherent ih returned
  | tick _ returned ih => exact tickTracked_coherent ih returned
  | transferOut _ _ returned ihSource ihDestination =>
    exact (transferEntity_coherent ihSource ihDestination returned).1
  | transferIn _ _ returned ihSource ihDestination =>
    exact (transferEntity_coherent ihSource ihDestination returned).2
  | endEncounter _ returned ih => exact endEncounter_coherent ih returned

/-- The schedule of every encounter of a reachable world, with each entity scheduled once. -/
theorem reachable_schedule {world : World} {combat : CombatState} (hreachable : Reachable world)
    (hcombat : world.combat = some combat) :
    Scheduled world combat ∧ (world.timeline.iter.map TurnKey.entity).Nodup :=
  ⟨(coherent_of_reachable hreachable).scheduled combat hcombat, world.timeline.unique⟩

/-! ### A duel -/

/-- One pool, one ability and one attribute, without a clock. -/
def duelRuleset : Ruleset where
  id := 1
  stats := [⟨"hp", .int, none⟩, ⟨"str", .int, none⟩]
  healthStat := "hp"
  attributes := ["str"]
  pools := [⟨2, 1, .onTurnStart⟩]
  abilities := [3]
  roundTicks := none
  initiative := none
  creaturePersistence := none
  effectsOnExit := none

/-- An ability that kills, the actor too. -/
def duelAbility : Ability where
  id := 3
  dice := "1d1"
  attributeName := "str"
  outcomeTable := 4
  damage := [⟨.success, 5, none⟩]
  cost := 1
  extraCosts := []
  endsTurn := true
  effect := none
  defense := .actorAttribute
  naturalDie := none
  requiresTarget := true
  allowSelfTarget := true
  recoveryTicks := none
  repeatsInRealTime := none
  bonusStats := none

/-- A creature with five health. -/
def duelCreature : Creature :=
  ⟨30, (BTreeMap.empty.insert "hp" ⟨5 * 65536⟩).insert "str" ⟨65536⟩, []⟩

/-- An encounter of two placements of one creature. -/
def duelSpec : EncounterSpec where
  encounter := ⟨10, [⟨20, 3⟩, ⟨21, 5⟩], none⟩
  ruleset := duelRuleset
  abilities := BTreeMap.empty.insert 3 duelAbility
  outcomeTables := BTreeMap.empty.insert 4 ⟨4, [⟨i64Min, .success⟩], []⟩
  placements := (BTreeMap.empty.insert 20 ⟨⟨20, 30⟩, 40⟩).insert 21 ⟨⟨21, 30⟩, 40⟩
  creatures := BTreeMap.empty.insert 30 duelCreature
  effects := BTreeMap.empty

def duelStart : Result CombatError (StartFacts × World) :=
  startEncounterInModeTracked (World.new 0) duelSpec .turnBased

/-- The first of the duel kills itself: nobody is active, and the other is still scheduled. -/
def duelSuicide : Result CombatError ((Option ActionOutcome × TransitionFacts) × World) :=
  duelStart.bind fun started ↦ performActionTracked started.2 (.useAbility ⟨0, 1⟩ 3 ⟨0, 1⟩)

/-- The second of the duel leaves: the first stays active, alone. -/
def duelDeparture : Result CombatError ((Bool × TransitionFacts) × World) :=
  duelStart.bind fun started ↦ despawnTracked started.2 ⟨1, 1⟩

/-- The schedule of the running duel. -/
theorem duel_schedule : ∃ world combat, world.combat = some combat ∧ Reachable world ∧
    Scheduled world combat ∧ (world.timeline.iter.map TurnKey.entity).Nodup := by
  have hrun : duelStart.isOkAnd (fun started ↦ started.2.combat.isSome) = true := by
    decide +kernel
  obtain ⟨⟨facts, world⟩, hstart, hcombat⟩ := isOkAnd_iff.mp hrun
  obtain ⟨combat, hcombat⟩ := Option.isSome_iff_exists.mp hcombat
  have hreachable : Reachable world := .start (.new 0) hstart trivial
  exact ⟨world, combat, hcombat, hreachable, reachable_schedule hreachable hcombat⟩

/-- The turn is not held exactly when a next turn exists, whether that means a scheduled head or two
combatants alive. -/
theorem active_not_iff_next_turn : (¬∀ world combat, Reachable world → world.combat = some combat →
      combat.mode = .turnBased → ∀ id, combat.active = some id ↔ world.timeline.head? = some id) ∧
    ¬∀ world combat, Reachable world → world.combat = some combat →
      combat.mode = .turnBased → ∀ id, combat.active = some id ↔
        2 ≤ world.rtAlive ∧ world.timeline.head? = some id := by
  constructor
  · intro hclaim
    have hrun : duelSuicide.isOkAnd (fun acted ↦
        (acted.2.combat.any fun combat ↦ combat.mode = .turnBased && combat.active = none) &&
          acted.2.timeline.head? = some ⟨1, 1⟩) = true := by
      decide +kernel
    obtain ⟨⟨facts, world⟩, hacted, hworld⟩ := isOkAnd_iff.mp hrun
    obtain ⟨⟨_, started⟩, hstart, hacted⟩ := bind_eq_ok_iff.mp hacted
    simp only [Bool.and_eq_true, Option.any_eq_true, decide_eq_true_eq] at hworld
    obtain ⟨⟨combat, hcombat, hmode, hactive⟩, hhead⟩ := hworld
    have hholds := (hclaim world combat (.perform (.start (.new 0) hstart trivial) hacted) hcombat hmode
      ⟨1, 1⟩).mpr hhead
    rw [hactive] at hholds
    cases hholds
  · intro hclaim
    have hrun : duelDeparture.isOkAnd (fun left ↦
        (left.2.combat.any fun combat ↦
          combat.mode = .turnBased && combat.active = some ⟨0, 1⟩) &&
            decide (left.2.rtAlive = 1)) = true := by
      decide +kernel
    obtain ⟨⟨facts, world⟩, hleft, hworld⟩ := isOkAnd_iff.mp hrun
    obtain ⟨⟨_, started⟩, hstart, hleft⟩ := bind_eq_ok_iff.mp hleft
    simp only [Bool.and_eq_true, Option.any_eq_true, decide_eq_true_eq] at hworld
    obtain ⟨⟨combat, hcombat, hmode, hactive⟩, halive⟩ := hworld
    have halive' := ((hclaim world combat (.despawn (.start (.new 0) hstart trivial) hleft) hcombat hmode
      ⟨0, 1⟩).mp hactive).1
    rw [halive] at halive'
    exact absurd halive' (by decide)

end Crpg.Sim
