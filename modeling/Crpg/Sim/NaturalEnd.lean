import Crpg.Sim.Boundary

/-!
# The natural end of an encounter

An encounter runs while a turn-based one has an active combatant and a real-time one has two living
ones (`World.nonterminal`). The end of a running encounter is detected in several places: the kill
branch of an action, the two branches of a turn advance, the execution pass of a tick, and a
despawn. `EndReported` says of each of them that it reports the end exactly when it leaves the
encounter terminal, and the remaining operations leave the encounter as it runs.
-/

set_option autoImplicit false

namespace Crpg.Sim

open Crpg.Core Crpg.Lib Crpg.Rules Crpg.Data
open Result (bind_eq bind_eq_ok_iff bind_ok_iff expect_some failIf_eq_ok_iff ok_bind pure_eq)

/-! ### Running encounters -/

/-- Whether an encounter runs: in turn-based play somebody is active, in real-time play two are
alive. -/
def World.nonterminal (world : World) : Bool :=
  match world.combat with
  | none => false
  | some combat =>
    match combat.mode with
    | .turnBased => combat.active.isSome
    | .realTime => decide (2 ≤ world.rtAlive)

section Running

variable {world : World} {combat : CombatState}

theorem nonterminal_none (hcombat : world.combat = none) : world.nonterminal = false := by
  rw [World.nonterminal, hcombat]

theorem nonterminal_turnBased (hcombat : world.combat = some combat)
    (hmode : combat.mode = .turnBased) : world.nonterminal = combat.active.isSome := by
  rw [World.nonterminal, hcombat]
  dsimp only
  rw [hmode]

theorem nonterminal_realTime (hcombat : world.combat = some combat)
    (hmode : combat.mode = .realTime) : world.nonterminal = decide (2 ≤ world.rtAlive) := by
  rw [World.nonterminal, hcombat]
  dsimp only
  rw [hmode]

/-- Worlds with the same encounter and the same living run alike. -/
theorem nonterminal_congr {next : World} (hcombat : next.combat = world.combat)
    (halive : next.rtAlive = world.rtAlive) : next.nonterminal = world.nonterminal := by
  rw [World.nonterminal, World.nonterminal, hcombat, halive]

end Running

variable {world next : World}

theorem rtAlive_of_rel {related : Combatant → Combatant → Prop}
    (hrel : IndexMap.Rel related world.combatants next.combatants)
    (halive : ∀ before after, related before after → after.dead = before.dead) :
    next.rtAlive = world.rtAlive := by
  unfold IndexMap.Rel at hrel
  unfold World.rtAlive World.aliveInStore
  generalize world.combatants.entries = before at hrel ⊢
  generalize next.combatants.entries = after at hrel ⊢
  rw [List.length_map, List.length_map]
  induction hrel with
  | nil => rfl
  | @cons first second _ _ hhead _ ih =>
    rw [List.filter_cons, List.filter_cons, halive _ _ hhead.2]
    split_ifs
    · rw [List.length_cons, List.length_cons, ih]
    · exact ih

/-- A boundary pass leaves the count of the living. -/
theorem rtAlive_of_stood (hstood : Stood world.combatants next.combatants) :
    next.rtAlive = world.rtAlive :=
  rtAlive_of_rel hstood fun _ _ ↦ Combatant.Stands.alive

/-- A write that leaves the dead dead and the living alive keeps the encounter as it runs. -/
theorem nonterminal_modifyCombatant (world : World) (id : EntityId)
    (transform : Combatant → Combatant)
    (halive : ∀ combatant, (transform combatant).dead = combatant.dead) :
    (world.modifyCombatant id transform).nonterminal = world.nonterminal := by
  have hrel : IndexMap.Rel (fun before after : Combatant ↦ after.dead = before.dead)
      world.combatants (world.modifyCombatant id transform).combatants :=
    @IndexMap.Rel.modify _ _ _ _ _ (fun before after : Combatant ↦ after.dead = before.dead)
      (fun _ ↦ rfl) transform fun combatant _ ↦ halive combatant
  exact nonterminal_congr rfl (rtAlive_of_rel hrel fun _ _ hdead ↦ hdead)

/-! ### Reports -/

/-- A transition either goes on, or reports the end of an encounter and leaves it terminal. -/
def EndReported (combat : CombatState) (facts : TransitionFacts) (next : World) : Prop :=
  (facts.encounterEnded = none ∧ next.nonterminal = true) ∨
    ((∃ round, facts.encounterEnded = some (combat.definition.encounter, round)) ∧
      facts.turnStarted = none ∧ next.nonterminal = false)

variable {combat : CombatState}

theorem tbRoundStart_nonterminal {turn : EntityId × ℕ}
    (hstart : tbRoundStart world = .ok (turn, next)) (hcombat : world.combat = some combat)
    (hmode : combat.mode = .turnBased) : next.nonterminal = true := by
  simp only [tbRoundStart, hcombat, expect_some, bind_eq, ok_bind, pure_eq, bind_eq_ok_iff,
    Result.ok.injEq, Prod.mk.injEq] at hstart
  obtain ⟨head, -, _, -, -, rfl⟩ := hstart
  simp [World.nonterminal, hmode]

theorem rtRoundStart_nonterminal {round : ℕ} (hstart : rtRoundStart world = .ok (round, next))
    (hcombat : world.combat = some combat) (hmode : combat.mode = .realTime)
    (halive : 2 ≤ world.rtAlive) : next.nonterminal = true := by
  simp only [rtRoundStart, hcombat, expect_some, bind_eq, ok_bind, Result.pure_ok_iff,
    Prod.mk.injEq] at hstart
  obtain ⟨-, rfl⟩ := hstart
  simp only [World.nonterminal, hmode, decide_eq_true_iff]
  refine halive.trans_eq (rtAlive_of_stood ?_).symm
  refine (mapAlive_stood world fun state ↦ ?_).trans (expireAll_stood _ _)
  exact (state.stands_refresh .roundStart).trans (Combatant.stands_refresh _ .turnStart)

theorem switchToRealTime_nonterminal {round : ℕ} (halive : 2 ≤ world.rtAlive)
    (hswitch : switchToRealTime world = .ok (round, next)) : next.nonterminal = true := by
  simp only [switchToRealTime, bind_ok_iff] at hswitch
  obtain ⟨combat, -, clock, -, _, -, hstart⟩ := hswitch
  exact rtRoundStart_nonterminal hstart rfl rfl halive

theorem switchToTurnBased_nonterminal {turn : EntityId × ℕ}
    (hswitch : switchToTurnBased world = .ok (turn, next)) : next.nonterminal = true := by
  simp only [switchToTurnBased, bind_ok_iff] at hswitch
  obtain ⟨combat, -, hstart⟩ := hswitch
  exact tbRoundStart_nonterminal hstart rfl rfl

section Advance

variable {world next : World} {combat : CombatState} {facts : TransitionFacts}

theorem rollover_endReported (hcombat : world.combat = some combat)
    (hmode : combat.mode = .turnBased) (halive : 2 ≤ world.rtAlive)
    (hrollover : rollover world = .ok (facts, next)) : EndReported combat facts next := by
  simp only [rollover, hcombat, expect_some, bind_eq, ok_bind, pure_eq] at hrollover
  refine Or.inl ?_
  split at hrollover
  · next clock _ =>
    have hdelivered (new : ℕ) (state : CombatState) :
        2 ≤ (deliverClockAdvance { world with combat := some state } clock.elapsed new).rtAlive :=
      halive.trans_eq (rtAlive_of_stood (deliverClockAdvance_stood
        { world with combat := some state } clock.elapsed new)).symm
    split_ifs at hrollover
    · obtain ⟨⟨round, after⟩, hswitch, hnext⟩ := bind_eq_ok_iff.mp hrollover
      cases hnext
      exact ⟨rfl, switchToRealTime_nonterminal (hdelivered _ _) hswitch⟩
    · obtain ⟨⟨turn, after⟩, hstart, hnext⟩ := bind_eq_ok_iff.mp hrollover
      cases hnext
      exact ⟨rfl, tbRoundStart_nonterminal hstart rfl hmode⟩
  · obtain ⟨⟨turn, after⟩, hstart, hnext⟩ := bind_eq_ok_iff.mp hrollover
    cases hnext
    exact ⟨rfl, tbRoundStart_nonterminal hstart hcombat hmode⟩

theorem advanceTracked_endReported (hcombat : world.combat = some combat)
    (hmode : combat.mode = .turnBased) (hadvance : advanceTracked world = .ok (facts, next)) :
    EndReported combat facts next := by
  unfold advanceTracked at hadvance
  split_ifs at hadvance with halive hempty
  · exact rollover_endReported hcombat hmode halive hadvance
  · simp only [nextTurn, hcombat, expect_some, bind_eq, pure_eq, bind_eq_ok_iff, ok_bind,
      Result.ok.injEq, Prod.mk.injEq] at hadvance
    obtain ⟨head, -, _, -, rfl, rfl⟩ := hadvance
    exact Or.inl ⟨rfl, by simp [World.nonterminal, hmode]⟩
  · simp only [terminate, hcombat, expect_some, ok_bind, Result.ok.injEq, Prod.mk.injEq] at hadvance
    obtain ⟨rfl, rfl⟩ := hadvance
    exact Or.inr ⟨⟨combat.round, rfl⟩, rfl, by simp [World.nonterminal, hmode]⟩

theorem settleUse_endReported {actor : EntityId} {ability : Ulid}
    (hsettle : settleUse world actor ability = .ok (facts, next))
    (hcombat : world.combat = some combat) (hmode : combat.mode = .turnBased) :
    EndReported combat facts next := by
  simp only [settleUse, hcombat, expect_some, bind_eq, ok_bind, pure_eq, bind_eq_ok_iff] at hsettle
  obtain ⟨entry, -, hsettle⟩ := hsettle
  have hcleared : (unscheduleDead world).combat = some combat := hcombat
  have hpopped : (endTurn (unscheduleDead world)).combat = some combat := by
    unfold endTurn
    split <;> exact hcombat
  split_ifs at hsettle
  · cases hsettle
    exact Or.inr ⟨⟨combat.round, rfl⟩, rfl, by simp [World.nonterminal, hmode]⟩
  · cases hsettle
    exact Or.inr ⟨⟨combat.round, rfl⟩, rfl, by simp [World.nonterminal, hmode]⟩
  · exact advanceTracked_endReported hcleared hmode hsettle
  · exact advanceTracked_endReported hpopped hmode hsettle
  · cases hsettle
    exact Or.inl ⟨rfl, by simp [World.nonterminal, hmode]⟩

end Advance

variable {facts : TransitionFacts}

/-- An accepted action belongs to a running encounter, and reports its end exactly when it leaves
the encounter terminal. -/
theorem performActionTracked_endReported {action : CombatAction} {produced : Option ActionOutcome}
    (hperform : performActionTracked world action = .ok ((produced, facts), next)) :
    ∃ combat, world.combat = some combat ∧ world.nonterminal = true ∧
      EndReported combat facts next := by
  simp only [performActionTracked, bind_eq, bind_eq_ok_iff] at hperform
  obtain ⟨_, hvalid, hperform⟩ := hperform
  obtain ⟨combat, hcombat⟩ := combat_of_validateAction hvalid
  refine ⟨combat, hcombat, ?_⟩
  cases action with
  | stop actor =>
    have hmode := validateAction_stop hcombat hvalid
    have halive : 2 ≤ world.rtAlive := by
      simp only [validateAction, hcombat, Result.okOr, bind_eq, ok_bind, hmode, bind_eq_ok_iff,
        failIf_eq_ok_iff, not_lt] at hvalid
      exact hvalid.elim fun _ hboth ↦ hboth.2
    have hruns : world.nonterminal = true :=
      (nonterminal_realTime hcombat hmode).trans (decide_eq_true halive)
    simp only [pure_eq, bind_eq_ok_iff, Result.ok.injEq, Prod.mk.injEq] at hperform
    obtain ⟨_, -, ⟨rfl, rfl⟩, rfl⟩ := hperform
    refine ⟨hruns, Or.inl ⟨rfl, ?_⟩⟩
    rw [nonterminal_modifyCombatant, hruns]
    exact fun _ ↦ rfl
  | endTurn actor =>
    have hmode := validateAction_endTurn hcombat hvalid
    have hactive : combat.active = some actor := by
      simp only [validateAction, hcombat, Result.okOr, bind_eq, ok_bind, bind_eq_ok_iff,
        failIf_eq_ok_iff, not_not] at hvalid
      obtain ⟨_, -, _, -, hactive⟩ := hvalid
      exact hactive
    simp only [pure_eq, bind_eq_ok_iff, Result.ok.injEq, Prod.mk.injEq] at hperform
    obtain ⟨⟨_, after⟩, hadvance, ⟨rfl, rfl⟩, rfl⟩ := hperform
    have hpopped : (endTurn (unscheduleDead world)).combat = some combat := by
      unfold endTurn
      split <;> exact hcombat
    refine ⟨?_, advanceTracked_endReported hpopped hmode hadvance⟩
    rw [nonterminal_turnBased hcombat hmode, hactive]
    rfl
  | useAbility actor ability target =>
    obtain ⟨-, hcheck⟩ := validateAction_useAbility hcombat hvalid
    simp only [hcombat, expect_some, ok_bind, pure_eq] at hperform
    split at hperform
    · next hmode =>
      simp only [checkTurn, hmode, failIf_eq_ok_iff, not_lt] at hcheck
      have hruns : world.nonterminal = true :=
        (nonterminal_realTime hcombat hmode).trans (decide_eq_true hcheck)
      simp only [bind_eq_ok_iff, Result.ok.injEq, Prod.mk.injEq] at hperform
      obtain ⟨_, -, _, -, ⟨rfl, rfl⟩, rfl⟩ := hperform
      refine ⟨hruns, Or.inl ⟨rfl, ?_⟩⟩
      rw [nonterminal_modifyCombatant, hruns]
      exact fun _ ↦ rfl
    · next hmode =>
      simp only [checkTurn, hmode, failIf_eq_ok_iff, not_not] at hcheck
      simp only [bind_eq_ok_iff, Result.ok.injEq, Prod.mk.injEq] at hperform
      obtain ⟨⟨outcome, resolved⟩, hresolve, ⟨_, after⟩, hsettle, ⟨rfl, rfl⟩, rfl⟩ := hperform
      obtain ⟨_, _, _, combatants, rfl, -, -⟩ := resolveUse_frame hresolve
      refine ⟨?_, settleUse_endReported hsettle hcombat hmode⟩
      rw [nonterminal_turnBased hcombat hmode, hcheck]
      rfl

/-! ### The tick -/

def World.encounter (world : World) : Option Ulid :=
  world.combat.map fun combat ↦ combat.definition.encounter

theorem roundBoundary_keeps (hboundary : roundBoundary world = .ok (facts, next))
    (hcombat : world.combat = some combat) (hmode : combat.mode = .realTime)
    (halive : 2 ≤ world.rtAlive) :
    facts.encounterEnded = none ∧ next.nonterminal = true ∧ next.encounter = world.encounter := by
  simp only [roundBoundary, hcombat, expect_some, bind_eq, ok_bind, pure_eq] at hboundary
  split_ifs at hboundary
  · obtain ⟨⟨turn, after⟩, hswitch, hnext⟩ := bind_eq_ok_iff.mp hboundary
    cases hnext
    refine ⟨rfl, switchToTurnBased_nonterminal hswitch, ?_⟩
    simp only [switchToTurnBased, tbRoundStart, expect_some, bind_eq, ok_bind, pure_eq,
      bind_eq_ok_iff, Result.ok.injEq, Prod.mk.injEq] at hswitch
    obtain ⟨_, -, _, -, -, rfl⟩ := hswitch
    rw [World.encounter, World.encounter, hcombat]
    rfl
  · obtain ⟨⟨round, after⟩, hstart, hnext⟩ := bind_eq_ok_iff.mp hboundary
    cases hnext
    refine ⟨rfl, rtRoundStart_nonterminal hstart rfl hmode halive, ?_⟩
    simp only [rtRoundStart, expect_some, bind_eq, ok_bind, pure_eq, Result.ok.injEq, Prod.mk.injEq]
      at hstart
    rw [← hstart.2, World.encounter, World.encounter, hcombat]
    rfl

theorem clockStage_keeps (hrunning : rtRunning world = true)
    (hstage : clockStage world = .ok (facts, next)) :
    facts.encounterEnded = none ∧ next.nonterminal = true ∧ next.encounter = world.encounter := by
  obtain ⟨combat, clock, hcombat, hmode, hclock, -, halive⟩ := rtRunning_iff.mp hrunning
  simp only [clockStage, hrunning, if_true, hcombat, hclock, expect_some, bind_eq, ok_bind, pure_eq]
    at hstage
  have hadvanced (state : CombatState) :
      2 ≤ (deliverClockAdvance { world with combat := some state } clock.elapsed
        (clock.elapsed + 1)).rtAlive :=
    halive.trans_eq (rtAlive_of_stood (deliverClockAdvance_stood
      { world with combat := some state } clock.elapsed (clock.elapsed + 1))).symm
  have hsame : world.encounter = some combat.definition.encounter := by
    rw [World.encounter, hcombat]
    rfl
  split_ifs at hstage
  · cases hstage
    refine ⟨rfl, ?_, hsame.symm⟩
    simp only [World.nonterminal, hmode, decide_eq_true_iff]
    exact halive
  · obtain ⟨_, -, hstage⟩ := bind_eq_ok_iff.mp hstage
    cases hstage
    refine ⟨rfl, ?_, hsame.symm⟩
    simp only [World.nonterminal, deliverClockAdvance, World.mapAlive, hmode, decide_eq_true_iff]
    exact hadvanced _
  · obtain ⟨_, -, hstage⟩ := bind_eq_ok_iff.mp hstage
    obtain ⟨hnone, hruns, hencounter⟩ := roundBoundary_keeps hstage rfl hmode (hadvanced _)
    exact ⟨hnone, hruns, hencounter.trans hsame.symm⟩

/-- The execution stage reports the end exactly when its pass leaves fewer than two alive. -/
theorem executionStage_endReported {before : TransitionFacts} {facts : TickFacts}
    (hcombat : world.encounter = some combat.definition.encounter)
    (hruns : world.nonterminal = true) (hbefore : before.encounterEnded = none)
    (hstage : executionStage world before = .ok (facts, next)) :
    (facts.transitions.encounterEnded = none ∧ next.nonterminal = true) ∨
      (∃ round, facts.transitions.encounterEnded = some (combat.definition.encounter, round)) ∧
        next.nonterminal = false := by
  by_cases hrunning : rtRunning world = true
  · obtain ⟨state, clock, hstate, hmode, -⟩ := rtRunning_iff.mp hrunning
    have hkept := (executionStage_combat hstage).trans hstate
    have hnonterminal := nonterminal_realTime hkept hmode
    have hencounter : state.definition.encounter = combat.definition.encounter := by
      rw [World.encounter, hstate] at hcombat
      exact Option.some.inj hcombat
    rcases (executionStage_induct (motive := fun _ _ ↦ True) trivial (fun _ _ _ _ _ _ _ _ _ _ _ _ ↦
      trivial) hstage).2 with ⟨hsame, halive⟩ | ⟨hfew, after, hafter, hended⟩
    · exact Or.inl ⟨hsame ▸ hbefore, hnonterminal.trans (decide_eq_true (halive hrunning))⟩
    · rw [← Option.some.inj (hkept.symm.trans hafter), hencounter] at hended
      exact Or.inr ⟨⟨state.round, congrArg TransitionFacts.encounterEnded hended⟩,
        hnonterminal.trans (decide_eq_false (Nat.not_le.mpr hfew))⟩
  · rw [executionStage, if_neg hrunning] at hstage
    cases hstage
    exact Or.inl ⟨hbefore, hruns⟩

/-- A tick of a running real-time encounter reports its end exactly when it leaves it terminal; any
other tick only counts. -/
theorem tickTracked_cases {facts : TickFacts} (htick : tickTracked world = .ok (facts, next)) :
    (facts = ⟨TransitionFacts.none, []⟩ ∧ next = world.advanceTick) ∨
      ∃ combat, world.combat = some combat ∧ world.nonterminal = true ∧
        ((facts.transitions.encounterEnded = none ∧ next.nonterminal = true) ∨
          (∃ round, facts.transitions.encounterEnded =
            some (combat.definition.encounter, round)) ∧ next.nonterminal = false) := by
  unfold tickTracked at htick
  obtain ⟨⟨before, staged⟩, hclock, hexecute⟩ := bind_eq_ok_iff.mp htick
  by_cases hrunning : rtRunning world.advanceTick = true
  · obtain ⟨combat, -, hcombat, hmode, -, -, halive⟩ := rtRunning_iff.mp hrunning
    obtain ⟨hnone, hruns, hencounter⟩ := clockStage_keeps hrunning hclock
    have hstatus : world.nonterminal = decide (2 ≤ world.rtAlive) :=
      nonterminal_realTime hcombat hmode
    refine Or.inr ⟨combat, hcombat, hstatus.trans (decide_eq_true halive), ?_⟩
    · refine executionStage_endReported ?_ hruns hnone hexecute
      rw [hencounter, World.encounter, hcombat]
      rfl
  · rw [clockStage, if_neg hrunning] at hclock
    cases hclock
    rw [executionStage, if_neg hrunning] at hexecute
    cases hexecute
    exact Or.inl ⟨rfl, rfl⟩

/-! ### Leaving -/

variable {id : EntityId}

/-- Without an active combatant a removal reports nothing, and only strips the encounter. -/
theorem settleDespawn_idle {entities : GenerationalArena EntityMeta}
    (hidle : world.combat.bind CombatState.active = none)
    (hsettle : settleDespawn (strip world entities id) world.combat id = .ok (facts, next)) :
    facts = TransitionFacts.none ∧ next.rng = world.rng ∧
      (next.combat = none ∧ next.rtAlive = 0 ∨ next.combat = world.combat) ∧
      next.rtAlive ≤ world.rtAlive := by
  unfold settleDespawn at hsettle
  split_ifs at hsettle with hempty hholds
  · have hnone : (world.combat.bind fun combat ↦ combat.active.map fun _ ↦
        (combat.definition.encounter, combat.round)) = none := by
      cases hcombat : world.combat with
      | none => rfl
      | some combat =>
        rw [hcombat] at hidle
        rw [Option.bind_some, show combat.active = none from hidle]
        rfl
    rw [hnone] at hsettle
    cases hsettle
    have hzero : (strip world entities id).rtAlive = 0 := by
      refine World.rtAlive_eq_zero fun other ⟨combatant, hget, _⟩ ↦ ?_
      have hmem := IndexMap.mem_keys_iff.mpr ⟨combatant, hget⟩
      rw [IndexMap.isEmpty_iff.mp hempty] at hmem
      exact absurd hmem List.not_mem_nil
    exact ⟨rfl, rfl, Or.inl ⟨rfl, hzero⟩, World.rtAlive_shiftRemove_le rfl⟩
  · exact absurd (hholds.symm.trans hidle) (Option.some_ne_none id)
  · cases hsettle
    exact ⟨rfl, rfl, Or.inr rfl, World.rtAlive_shiftRemove_le rfl⟩

/-- With an active combatant a removal reports the end exactly when it leaves the encounter
terminal. -/
theorem settleDespawn_endReported {entities : GenerationalArena EntityMeta} {head : EntityId}
    (hcombat : world.combat = some combat) (hmode : combat.mode = .turnBased)
    (hactive : combat.active = some head)
    (hsettle : settleDespawn (strip world entities id) world.combat id = .ok (facts, next)) :
    EndReported combat facts next := by
  unfold settleDespawn at hsettle
  split_ifs at hsettle with hempty hholds
  · simp only [hcombat, Option.bind_some, hactive, Option.map_some, Result.ok.injEq,
      Prod.mk.injEq] at hsettle
    obtain ⟨rfl, rfl⟩ := hsettle
    exact Or.inr ⟨⟨combat.round, rfl⟩, rfl, nonterminal_none rfl⟩
  · have hkept : (strip world entities id).combat = some combat := hcombat
    exact advanceTracked_endReported hkept hmode hsettle
  · cases hsettle
    have hstatus : (strip world entities id).nonterminal = combat.active.isSome :=
      nonterminal_turnBased hcombat hmode
    refine Or.inl ⟨rfl, hstatus.trans ?_⟩
    rw [hactive]
    rfl

theorem realTime_removal_cases {settled : World} (hcombat : world.combat = some combat)
    (hmode : combat.mode = .realTime)
    (hencounter : settled.combat = none ∧ settled.rtAlive = 0 ∨ settled.combat = some combat)
    (hfewer : settled.rtAlive ≤ world.rtAlive)
    (hfacts : (if world.rtAlive ≥ 2 ∧ settled.rtAlive < 2 then { TransitionFacts.none with
          encounterEnded := some (combat.definition.encounter, combat.round) }
      else TransitionFacts.none) = facts) :
    (world.nonterminal = true ∧ EndReported combat facts settled) ∨
      world.nonterminal = false ∧ facts = TransitionFacts.none ∧ settled.nonterminal = false := by
  have hbefore := nonterminal_realTime hcombat hmode
  have hstatus : settled.nonterminal = decide (2 ≤ settled.rtAlive) := by
    rcases hencounter with ⟨hreleased, hzero⟩ | hkept
    · rw [nonterminal_none hreleased, hzero]
      rfl
    · exact nonterminal_realTime hkept hmode
  by_cases halive : 2 ≤ world.rtAlive
  · refine Or.inl ⟨hbefore.trans (decide_eq_true halive), ?_⟩
    by_cases hleft : settled.rtAlive < 2
    · rw [if_pos ⟨halive, hleft⟩] at hfacts
      rw [← hfacts]
      exact Or.inr ⟨⟨combat.round, rfl⟩, rfl,
        hstatus.trans (decide_eq_false (Nat.not_le.mpr hleft))⟩
    · rw [if_neg fun hboth ↦ hleft hboth.2] at hfacts
      rw [← hfacts]
      exact Or.inl ⟨rfl, hstatus.trans (decide_eq_true (Nat.not_lt.mp hleft))⟩
  · rw [if_neg fun hboth ↦ halive hboth.1] at hfacts
    refine Or.inr ⟨hbefore.trans (decide_eq_false halive), hfacts.symm, hstatus.trans ?_⟩
    exact decide_eq_false fun hleft ↦ halive (hleft.trans hfewer)

/-- A despawn of a running encounter reports its end exactly when it leaves it terminal; of any
other one it reports nothing, draws nothing and starts nothing. -/
theorem despawnTracked_endReported {removed : Bool} (hcoherent : Coherent world)
    (hdespawn : despawnTracked world id = .ok ((removed, facts), next)) :
    (∃ combat, world.combat = some combat ∧ world.nonterminal = true ∧
        EndReported combat facts next) ∨
      world.nonterminal = false ∧ facts = TransitionFacts.none ∧ next.nonterminal = false ∧
        next.rng = world.rng := by
  unfold despawnTracked at hdespawn
  split at hdespawn
  · cases hdespawn
    cases hruns : world.nonterminal with
    | false => exact Or.inr ⟨rfl, rfl, rfl, rfl⟩
    | true =>
      cases hcombat : world.combat with
      | none =>
        rw [nonterminal_none hcombat] at hruns
        cases hruns
      | some combat => exact Or.inl ⟨combat, rfl, rfl, Or.inl ⟨rfl, hruns⟩⟩
  · obtain ⟨⟨transition, settled⟩, hsettle, hnext⟩ := bind_eq_ok_iff.mp hdespawn
    simp only [Result.ok.injEq, Prod.mk.injEq] at hnext
    obtain ⟨⟨-, hfacts⟩, rfl⟩ := hnext
    have hsame (events : EventQueue SimEvent) :
        ({ settled with events := events } : World).nonterminal = settled.nonterminal :=
      nonterminal_congr rfl rfl
    simp only [EndReported, hsame]
    cases hcombat : world.combat with
    | none =>
      rw [priorRtAlive, hcombat] at hfacts
      obtain ⟨rfl, hrng, hencounter, -⟩ := settleDespawn_idle (by rw [hcombat]; rfl) hsettle
      rw [hcombat] at hencounter
      have hreleased : settled.combat = none := hencounter.elim And.left fun hkept ↦ hkept
      exact Or.inr ⟨nonterminal_none hcombat, hfacts.symm, nonterminal_none hreleased, hrng⟩
    | some combat =>
      cases hmode : combat.mode with
      | realTime =>
        have hactive := ((hcoherent.scheduled combat hcombat).realTime hmode).active
        obtain ⟨rfl, hrng, hencounter, hfewer⟩ :=
          settleDespawn_idle (by rw [hcombat]; exact hactive) hsettle
        rw [priorRtAlive, hcombat, Option.bind_some, hmode, if_pos rfl] at hfacts
        rw [hcombat] at hencounter
        refine (realTime_removal_cases hcombat hmode hencounter hfewer hfacts).imp
          (fun hreported ↦ ⟨combat, rfl, hreported⟩) fun hquiet ↦ ?_
        exact ⟨hquiet.1, hquiet.2.1, hquiet.2.2, hrng⟩
      | turnBased =>
        rw [priorRtAlive, hcombat, Option.bind_some, hmode] at hfacts
        have hstatus := nonterminal_turnBased hcombat hmode
        cases hactive : combat.active with
        | some head =>
          rw [hactive] at hstatus
          refine Or.inl ⟨combat, rfl, hstatus, ?_⟩
          rw [← hfacts]
          exact settleDespawn_endReported hcombat hmode hactive hsettle
        | none =>
          obtain ⟨rfl, hrng, hencounter, -⟩ :=
            settleDespawn_idle (by rw [hcombat]; exact hactive) hsettle
          rw [hactive] at hstatus
          refine Or.inr ⟨hstatus, hfacts.symm, ?_, hrng⟩
          rcases hencounter with ⟨hreleased, -⟩ | hkept
          · exact nonterminal_none hreleased
          · rw [nonterminal_turnBased (hkept.trans hcombat) hmode, hactive]
            rfl

/-- Somebody fights in a running encounter. -/
theorem keys_ne_nil_of_nonterminal (hcoherent : Coherent world) (hruns : world.nonterminal = true) :
    world.combatants.keys ≠ [] := by
  intro hkeys
  have hnone (id : EntityId) : ¬Living world.combatants id := by
    rintro ⟨combatant, hget, -⟩
    have hmem := IndexMap.mem_keys_iff.mpr ⟨combatant, hget⟩
    rw [hkeys] at hmem
    exact absurd hmem List.not_mem_nil
  cases hcombat : world.combat with
  | none =>
    rw [nonterminal_none hcombat] at hruns
    cases hruns
  | some combat =>
    cases hmode : combat.mode with
    | turnBased =>
      rw [nonterminal_turnBased hcombat hmode] at hruns
      obtain ⟨head, hactive⟩ := Option.isSome_iff_exists.mp hruns
      have hturn := (hcoherent.scheduled combat hcombat).turnBased hmode
      obtain ⟨slot, hslot, rfl, -⟩ := Timeline.head?_eq_some_iff.mp (hturn.head head hactive)
      exact hnone _ (hturn.living slot hslot)
    | realTime =>
      rw [nonterminal_realTime hcombat hmode, World.rtAlive_eq_zero hnone] at hruns
      cases hruns

/-- Nobody holds the turn who does not fight. -/
theorem Coherent.active_ne (hcoherent : Coherent world) (habsent : id ∉ world.combatants.keys) :
    world.combat.bind CombatState.active ≠ some id := by
  intro hholds
  obtain ⟨combat, hcombat, hactive⟩ := Option.bind_eq_some_iff.mp hholds
  obtain ⟨-, hturn, hreal⟩ := hcoherent.scheduled combat hcombat
  cases hmode : combat.mode with
  | turnBased =>
    obtain ⟨slot, hslot, rfl, -⟩ := Timeline.head?_eq_some_iff.mp ((hturn hmode).head id hactive)
    obtain ⟨combatant, hget, -⟩ := (hturn hmode).living slot hslot
    exact habsent (IndexMap.mem_keys_iff.mpr ⟨combatant, hget⟩)
  | realTime =>
    rw [(hreal hmode).active] at hactive
    cases hactive

/-- The removal of an entity that does not fight leaves an encounter running. -/
theorem despawnTracked_bystander {facts : Bool × TransitionFacts} (hcoherent : Coherent world)
    (habsent : id ∉ world.combatants.keys) (hruns : world.nonterminal = true)
    (hdespawn : despawnTracked world id = .ok (facts, next)) : next.nonterminal = true := by
  have hkept : world.combatants.shiftRemove id = world.combatants :=
    IndexMap.shiftRemove_of_notMem habsent
  unfold despawnTracked at hdespawn
  split at hdespawn
  · cases hdespawn
    exact hruns
  · next value entities _ =>
    obtain ⟨⟨transition, settled⟩, hsettle, hnext⟩ := bind_eq_ok_iff.mp hdespawn
    simp only [Result.ok.injEq, Prod.mk.injEq] at hnext
    obtain ⟨-, rfl⟩ := hnext
    have hstripped : settled = strip world entities id := by
      unfold settleDespawn at hsettle
      split_ifs at hsettle with hempty hholds
      · refine absurd ?_ (keys_ne_nil_of_nonterminal hcoherent hruns)
        rw [← IndexMap.isEmpty_iff.mp hempty]
        exact congrArg IndexMap.keys hkept.symm
      · exact absurd hholds (hcoherent.active_ne habsent)
      · cases hsettle
        rfl
    rw [hstripped, ← hruns]
    refine nonterminal_congr rfl ?_
    rw [World.rtAlive, World.rtAlive, World.aliveInStore, World.aliveInStore]
    exact congrArg (fun store : ComponentStore Combatant ↦ ((store.entries.filter fun entry ↦
      !entry.2.dead).map Prod.fst).length) hkept

end Crpg.Sim
