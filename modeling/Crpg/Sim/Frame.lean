import Crpg.Sim.Area

/-!
# What the operations leave alone

Frame facts of the controller. A resolution changes the interned names, the streams, the events and
the combatants of a world and nothing else, and of a combatant it changes health, pools and
attachments only: its identity and its order stay, and the dead stay dead (`Combatant.Keeps`,
`resolveUse_frame`). The passes at a round or turn boundary change pools and attachments only
(`Combatant.Stands`).
-/

set_option autoImplicit false

namespace Crpg.Sim

open Crpg.Core Crpg.Lib Crpg.Rules Crpg.Data
open Result (bind_eq_ok_iff bind_ok_iff expect_eq_ok_iff pure_eq)

/-! ### Combatants -/

structure Combatant.Keeps (before after : Combatant) : Prop where
  placement : after.placement = before.placement
  initiative : after.initiative = before.initiative
  attributes : after.attributes = before.attributes
  maxHealth : after.maxHealth = before.maxHealth
  order : after.order = before.order
  tags : after.tags = before.tags
  fixed : after.fixed = before.fixed
  entered : after.entered = before.entered
  dead : before.dead = true → after.dead = true

/-- What a boundary pass leaves of a combatant: all but its pools and its attachments. -/
structure Combatant.Stands (before after : Combatant) : Prop extends Combatant.Keeps before after where
  alive : after.dead = before.dead
  health : after.health = before.health

namespace Combatant

theorem Keeps.refl (combatant : Combatant) : Keeps combatant combatant :=
  ⟨rfl, rfl, rfl, rfl, rfl, rfl, rfl, rfl, id⟩

theorem Keeps.trans {first second third : Combatant} (hfirst : Keeps first second)
    (hsecond : Keeps second third) : Keeps first third where
  placement := hsecond.placement.trans hfirst.placement
  initiative := hsecond.initiative.trans hfirst.initiative
  attributes := hsecond.attributes.trans hfirst.attributes
  maxHealth := hsecond.maxHealth.trans hfirst.maxHealth
  order := hsecond.order.trans hfirst.order
  tags := hsecond.tags.trans hfirst.tags
  fixed := hsecond.fixed.trans hfirst.fixed
  entered := hsecond.entered.trans hfirst.entered
  dead := fun hdead ↦ hsecond.dead (hfirst.dead hdead)

theorem Stands.refl (combatant : Combatant) : Stands combatant combatant :=
  ⟨Keeps.refl combatant, rfl, rfl⟩

theorem Stands.trans {first second third : Combatant} (hfirst : Stands first second)
    (hsecond : Stands second third) : Stands first third :=
  ⟨hfirst.toKeeps.trans hsecond.toKeeps, hsecond.alive.trans hfirst.alive,
    hsecond.health.trans hfirst.health⟩

theorem Stands.pools (combatant : Combatant) (actionPool : ResourcePool)
    (extraPools : List ResourcePool) (attached : List AttachedEffect) :
    Stands combatant { combatant with
      actionPool := actionPool
      extraPools := extraPools
      attached := attached } :=
  ⟨⟨rfl, rfl, rfl, rfl, rfl, rfl, rfl, rfl, id⟩, rfl, rfl⟩

theorem stands_refresh (combatant : Combatant) (event : RefreshEvent) :
    Stands combatant (combatant.refresh event) :=
  Stands.pools ..

theorem stands_expire (combatant : Combatant) (round : ℕ) :
    Stands combatant (combatant.expire round) :=
  Stands.pools combatant combatant.actionPool combatant.extraPools _

theorem keeps_hit (combatant : Combatant) (damage : ℕ) : Keeps combatant (combatant.hit damage) where
  placement := rfl
  initiative := rfl
  attributes := rfl
  maxHealth := rfl
  order := rfl
  tags := rfl
  fixed := rfl
  entered := rfl
  dead := by
    intro hdead
    simp [hit, hdead]

end Combatant

/-! ### Resolution -/

/-- Two stores with the same combatants in the same order, each as a resolution leaves it. -/
abbrev Kept := IndexMap.Rel (κ := EntityId) Combatant.Keeps

/-- Two stores with the same combatants in the same order, each as a boundary pass leaves it. -/
abbrev Stood := IndexMap.Rel (κ := EntityId) Combatant.Stands

theorem kept_refl (store : ComponentStore Combatant) : Kept store store :=
  IndexMap.Rel.refl Combatant.Keeps.refl store

variable {second : ComponentStore Combatant}

theorem Kept.trans {first third : ComponentStore Combatant} (hfirst : Kept first second)
    (hsecond : Kept second third) : Kept first third :=
  IndexMap.Rel.trans (fun _ _ _ ↦ Combatant.Keeps.trans) hfirst hsecond

theorem stood_refl (store : ComponentStore Combatant) : Stood store store :=
  IndexMap.Rel.refl Combatant.Stands.refl store

theorem Stood.trans {first third : ComponentStore Combatant} (hfirst : Stood first second)
    (hsecond : Stood second third) : Stood first third :=
  IndexMap.Rel.trans (fun _ _ _ ↦ Combatant.Stands.trans) hfirst hsecond

theorem Stood.kept {first : ComponentStore Combatant} (hstood : Stood first second) :
    Kept first second :=
  IndexMap.Rel.imp (fun _ _ ↦ Combatant.Stands.toKeeps) hstood

theorem spendCost_keeps {combatant spent : Combatant} {cost : Ulid × ℕ}
    (hspend : spendCost combatant cost = .ok spent) : Combatant.Stands combatant spent := by
  unfold spendCost at hspend
  split_ifs at hspend with hpool
  · obtain ⟨pool, -, hspent⟩ := bind_eq_ok_iff.mp hspend
    cases hspent
    exact Combatant.Stands.pools combatant pool combatant.extraPools combatant.attached
  · obtain ⟨pools, -, hspent⟩ := bind_eq_ok_iff.mp hspend
    cases hspent
    exact Combatant.Stands.pools combatant combatant.actionPool pools combatant.attached

variable {world next : World}

theorem spendCosts_frame {actor : EntityId} {costs : List (Ulid × ℕ)}
    (hspend : spendCosts world actor costs = .ok next) :
    ∃ combatants, next = { world with combatants := combatants } ∧
      Kept world.combatants combatants := by
  simp only [spendCosts, bind_eq_ok_iff, expect_eq_ok_iff] at hspend
  obtain ⟨combatant, hget, spent, hspent, hnext⟩ := hspend
  cases hnext
  refine ⟨_, rfl, IndexMap.Rel.modify Combatant.Keeps.refl _ fun value hvalue ↦ ?_⟩
  rw [hget, Option.some.injEq] at hvalue
  subst hvalue
  refine (Result.foldlM_preserves (motive := Combatant.Stands combatant) ?_
    (Combatant.Stands.refl combatant) hspent).toKeeps
  intro cost _ state after hstate hafter
  exact hstate.trans (spendCost_keeps hafter)

def OnlyDeaths (target : EntityId) (before after : EventQueue SimEvent) : Prop :=
  ∀ envelope ∈ after.envelopes, envelope ∈ before.envelopes ∨ envelope.payload = .died target

theorem applyDamage_frame {target : EntityId} {damage : ℕ} {died : Bool}
    (hdamage : applyDamage world target damage = .ok (next, died)) :
    ∃ combatants events, next = { world with combatants := combatants, events := events } ∧
      Kept world.combatants combatants ∧ OnlyDeaths target world.events events := by
  unfold applyDamage at hdamage
  split_ifs at hdamage with hpositive
  · obtain ⟨state, -, hhit⟩ := bind_eq_ok_iff.mp hdamage
    have hkept : Kept world.combatants
        (world.combatants.modify target fun state ↦ state.hit damage) :=
      IndexMap.Rel.modify Combatant.Keeps.refl _ fun value _ ↦ value.keeps_hit damage
    dsimp only at hhit
    split_ifs at hhit with hdead
    · cases hhit
      refine ⟨_, _, rfl, hkept, fun envelope henvelope ↦ ?_⟩
      rcases List.mem_append.mp henvelope with hold | hnew
      · exact Or.inl hold
      · exact Or.inr (by rw [List.mem_singleton.mp hnew])
    · cases hhit
      exact ⟨_, world.events, rfl, hkept, fun _ ↦ Or.inl⟩
  · cases hdamage
    exact ⟨_, _, rfl, kept_refl _, fun _ ↦ Or.inl⟩

theorem applyEffect_frame (world : World) (definition : CombatDefinition)
    (entry : AbilityDefinition) (outcome : Outcome) (actor target : EntityId) (round : ℕ) :
    ∃ combatants, applyEffect world definition entry outcome actor target round =
      { world with combatants := combatants } ∧ Kept world.combatants combatants := by
  unfold applyEffect attachEffect
  split
  · split
    · split
      · exact ⟨_, rfl, kept_refl _⟩
      · refine ⟨_, rfl, IndexMap.Rel.modify Combatant.Keeps.refl _ fun value _ ↦ ?_⟩
        exact (Combatant.Stands.pools value value.actionPool value.extraPools _).toKeeps
    · exact ⟨_, rfl, kept_refl _⟩
  · exact ⟨_, rfl, kept_refl _⟩

theorem internDefense_frame (world : World) (defense : AbilityDefense) :
    ∃ interners, internDefense world defense = { world with interners := interners } := by
  unfold internDefense
  split
  · exact ⟨_, rfl⟩
  · exact ⟨world.interners, rfl⟩

/-- A resolution changes the interned names, the streams, the events and the combatants, and keeps
every combatant in its place with its order. -/
theorem resolveUse_frame {actor target : EntityId} {ability : Ulid} {outcome : ActionOutcome}
    (hresolve : resolveUse world actor ability target = .ok (outcome, next)) :
    ∃ interners rng events combatants,
      next = { world with
        interners := interners
        rng := rng
        events := events
        combatants := combatants } ∧ Kept world.combatants combatants ∧
      OnlyDeaths target world.events events := by
  simp only [resolveUse, bind_ok_iff, pure_eq] at hresolve
  obtain ⟨combat, -, entry, -, plan, -, resolved, -, damage, -, spent, hspent, damaged, hdamaged,
    roll, -, hnext⟩ := hresolve
  obtain ⟨interners, hinterned⟩ := internDefense_frame world entry.defense
  rw [hinterned] at hspent
  obtain ⟨spentCombatants, rfl, hspentKept⟩ := spendCosts_frame hspent
  obtain ⟨hitCombatants, events, hhit, hhitKept, hdeaths⟩ := applyDamage_frame hdamaged
  obtain ⟨combatants, happlied, heffectKept⟩ := applyEffect_frame damaged.1 combat.definition entry
    resolved.1.decision.outcome actor target combat.round
  simp only [Result.ok.injEq, Prod.mk.injEq] at hnext
  rw [← hnext.2, happlied, hhit]
  rw [hhit] at heffectKept
  exact ⟨interners, damage.2, events, combatants, rfl,
    hspentKept.trans (hhitKept.trans heffectKept), hdeaths⟩

theorem resolveUse_names {actor target : EntityId} {ability : Ulid} {outcome : ActionOutcome}
    (hresolve : resolveUse world actor ability target = .ok (outcome, next)) :
    (outcome.actor = actor ∧ actor ∈ world.combatants.keys) ∧
      outcome.target = target ∧ target ∈ world.combatants.keys := by
  simp only [resolveUse, bind_ok_iff, pure_eq, Result.unwrap_eq_ok_iff] at hresolve
  obtain ⟨combat, -, entry, -, plan, hplan, _, -, _, -, _, -, _, -, _, -, hnext⟩ := hresolve
  simp only [Result.ok.injEq, Prod.mk.injEq] at hnext
  obtain ⟨rfl, -⟩ := hnext
  obtain ⟨interners, hinterned⟩ := internDefense_frame world entry.defense
  rw [hinterned] at hplan
  simp only [actionPlan, bind_ok_iff, expect_eq_ok_iff] at hplan
  obtain ⟨_, -, actorState, hactor, targetState, htarget, -⟩ := hplan
  exact ⟨⟨rfl, IndexMap.mem_keys_iff.mpr ⟨actorState, hactor⟩⟩, rfl,
    IndexMap.mem_keys_iff.mpr ⟨targetState, htarget⟩⟩

/-! ### Boundary passes -/

theorem mapAlive_stood (world : World) {transform : Combatant → Combatant}
    (hstands : ∀ combatant, Combatant.Stands combatant (transform combatant)) :
    Stood world.combatants (world.mapAlive transform).combatants := by
  refine IndexMap.Rel.mapValues _ fun _ combatant ↦ ?_
  split_ifs
  · exact Combatant.Stands.refl combatant
  · exact hstands combatant

theorem expireAll_stood (world : World) (round : ℕ) :
    Stood world.combatants (world.expireAll round).combatants :=
  IndexMap.Rel.mapValues _ fun _ combatant ↦ combatant.stands_expire round

theorem refreshOne_stood (world : World) (id : EntityId) (event : RefreshEvent) :
    Stood world.combatants (world.modifyCombatant id fun state ↦ state.refresh event).combatants :=
  IndexMap.Rel.modify Combatant.Stands.refl _ fun combatant _ ↦ combatant.stands_refresh event

theorem deliverClockAdvance_stood (world : World) (old new : ℕ) :
    Stood world.combatants (deliverClockAdvance world old new).combatants :=
  mapAlive_stood world fun combatant ↦ Combatant.Stands.pools combatant _ _ combatant.attached

/-! ### The execution pass -/

/-- One entry of the execution pass is passed over, or its order is executed. -/
theorem executeDue_cases {elapsed roundTicks : ℕ} {state next : List TickEvent × World}
    {actor : EntityId} (hexecute : executeDue elapsed roundTicks state actor = .ok next) :
    next = state ∨ ∃ combatant order event after, state.2.combatants.get? actor = some combatant ∧
      executeOrder elapsed roundTicks state.2 actor order = .ok (event, after) ∧
      next = (state.1 ++ [event], after) := by
  unfold executeDue at hexecute
  split_ifs at hexecute
  · cases hexecute
    exact Or.inl rfl
  · split at hexecute
    · cases hexecute
      exact Or.inl rfl
    · next combatant hget =>
      split_ifs at hexecute
      · cases hexecute
        exact Or.inl rfl
      · split at hexecute
        · cases hexecute
          exact Or.inl rfl
        · next order _ =>
          obtain ⟨⟨event, after⟩, horder, hnext⟩ := bind_eq_ok_iff.mp hexecute
          cases hnext
          exact Or.inr ⟨combatant, order, event, after, hget, horder, rfl⟩

/-- The rule of the execution stage: what every due order preserves holds of its events and of its
world, and it reports the end of the encounter when fewer than two are left alive. -/
theorem executionStage_induct {motive : List TickEvent → World → Prop} {before : TransitionFacts}
    {facts : TickFacts} (hstart : motive [] world)
    (hstep : ∀ (elapsed roundTicks : ℕ) (events : List TickEvent) (state after : World)
      (actor : EntityId) (order : StandingOrder) (event : TickEvent), motive events state →
      rtRunning world = true → actor ∈ state.combatants.keys →
      executeOrder elapsed roundTicks state actor order = .ok (event, after) →
      motive (events ++ [event]) after) (hstage : executionStage world before = .ok (facts, next)) :
    motive facts.events next ∧
      (facts.transitions = before ∧ (rtRunning world = true → 2 ≤ next.rtAlive) ∨
        next.rtAlive < 2 ∧ ∃ combat, next.combat = some combat ∧ facts.transitions =
          { before with encounterEnded := some (combat.definition.encounter, combat.round) }) := by
  unfold executionStage at hstage
  split at hstage
  · next hrunning =>
    simp only [bind_ok_iff, pure_eq] at hstage
    obtain ⟨combat, -, clock, -, executed, hfold, hstage⟩ := hstage
    have hexecuted : motive executed.1 executed.2 := by
      refine Result.foldlM_preserves
        (motive := fun state : List TickEvent × World ↦ motive state.1 state.2) ?_ hstart hfold
      intro actor _ state after hstate hafter
      rcases executeDue_cases hafter with rfl | ⟨combatant, order, event, next, hget, horder, rfl⟩
      · exact hstate
      · exact hstep _ _ _ _ _ _ _ _ hstate hrunning
          (IndexMap.mem_keys_iff.mpr ⟨combatant, hget⟩) horder
    split_ifs at hstage with hfew
    · obtain ⟨after, hafter, hnext⟩ := bind_eq_ok_iff.mp hstage
      cases hnext
      exact ⟨hexecuted, Or.inr ⟨hfew, after, expect_eq_ok_iff.mp hafter, rfl⟩⟩
    · cases hstage
      exact ⟨hexecuted, Or.inl ⟨rfl, fun _ ↦ not_lt.mp hfew⟩⟩
  · next hidle =>
    cases hstage
    exact ⟨hstart, Or.inl ⟨rfl, fun hrunning ↦ absurd hrunning hidle⟩⟩

end Crpg.Sim
