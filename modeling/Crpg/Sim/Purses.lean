import Crpg.Sim.Payment

/-!
# The purses of combatants

No operation of the controller changes the identity of a pool or the definition of an encounter
(`Equipped`). A resolution spends the costs of its ability and does nothing else to a pool
(`resolveUse_pools`), so it only lowers what pools hold (`resolveUse_charged`).
-/

set_option autoImplicit false

namespace Crpg.Sim

open Crpg.Core Crpg.Lib Crpg.Rules Crpg.Data

/-! ### Charges -/

def Lowered (before after : ResourcePool) : Prop := ∃ amount, after = less before amount

theorem Lowered.refl (pool : ResourcePool) : Lowered pool pool := ⟨0, rfl⟩

theorem forall₂_lowered_refl (pools : List ResourcePool) : List.Forall₂ Lowered pools pools :=
  List.forall₂_same.mpr fun pool _ ↦ .refl pool

/-- A combatant whose pools are another's with less in them. -/
def Combatant.Charged (before after : Combatant) : Prop :=
  List.Forall₂ Lowered before.pools after.pools

theorem Combatant.Charged.refl (combatant : Combatant) : Charged combatant combatant :=
  forall₂_lowered_refl _

theorem Combatant.Charged.trans {first second third : Combatant} (hfirst : Charged first second)
    (hsecond : Charged second third) : Charged first third := by
  unfold Charged at *
  generalize first.pools = before at hfirst
  generalize second.pools = middle at hfirst hsecond
  generalize third.pools = after at hsecond
  induction hfirst generalizing after with
  | nil => exact hsecond
  | cons hhead _ ih =>
    obtain _ | ⟨hnext, hrest⟩ := hsecond
    obtain ⟨one, rfl⟩ := hhead
    obtain ⟨two, rfl⟩ := hnext
    exact .cons ⟨_, less_less _ one two⟩ (ih _ hrest)

theorem Combatant.Charged.samePools {before after : Combatant} (hcharged : Charged before after) :
    SamePools before after := by
  unfold Charged at hcharged
  unfold SamePools
  generalize before.pools = first at hcharged ⊢
  generalize after.pools = second at hcharged ⊢
  induction hcharged with
  | nil => rfl
  | cons hhead _ ih =>
    obtain ⟨amount, rfl⟩ := hhead
    rw [List.map_cons, List.map_cons, ih, less_id]

theorem lowered_of_spend {pool spent : ResourcePool} {amount : ℕ}
    (hspend : pool.spend amount = .ok spent) : Lowered pool spent := by
  unfold ResourcePool.spend at hspend
  split_ifs at hspend
  exact ⟨amount, (Except.ok.inj hspend).symm⟩

theorem lowered_of_spendFirst {id : Ulid} {amount : ℕ} {items spent : List ResourcePool}
    (hspend : spendFirst id amount items = some spent) : List.Forall₂ Lowered items spent := by
  induction items generalizing spent with
  | nil => cases hspend
  | cons head rest ih =>
    unfold spendFirst at hspend
    by_cases hhead : head.id = id
    · rw [if_pos hhead] at hspend
      cases hone : head.spend amount with
      | ok paid =>
        rw [hone] at hspend
        rw [← Option.some.inj hspend]
        exact .cons (lowered_of_spend hone) (forall₂_lowered_refl rest)
      | error error =>
        rw [hone] at hspend
        cases hspend
    · rw [if_neg hhead, Option.map_eq_some_iff] at hspend
      obtain ⟨others, hothers, rfl⟩ := hspend
      exact .cons (.refl head) (ih hothers)

theorem spendCost_charged {combatant spent : Combatant} {cost : Ulid × ℕ}
    (hspend : spendCost combatant cost = .ok spent) : Combatant.Charged combatant spent := by
  unfold spendCost at hspend
  split_ifs at hspend
  · obtain ⟨pool, hpool, hspent⟩ := Result.bind_eq_ok_iff.mp hspend
    have hlowered : Lowered combatant.actionPool pool := by
      cases hone : combatant.actionPool.spend cost.2 with
      | ok paid =>
        rw [hone] at hpool
        rw [← Result.ok.inj hpool]
        exact lowered_of_spend hone
      | error error =>
        rw [hone] at hpool
        exact nomatch hpool
    rw [← Result.ok.inj hspent]
    exact .cons hlowered (forall₂_lowered_refl _)
  · obtain ⟨pools, hpools, hspent⟩ := Result.bind_eq_ok_iff.mp hspend
    rw [← Result.ok.inj hspent]
    exact .cons (.refl _) (lowered_of_spendFirst (Result.expect_eq_ok_iff.mp hpools))

/-! ### Operations of the controller -/

/-- Two stores with the same combatants in the same order, with pools of the same identities. -/
abbrev SamePurses := IndexMap.Rel (κ := EntityId) Combatant.SamePools

/-- A world under the same definition whose combatants hold pools of the same identities. -/
structure Equipped (before after : World) : Prop where
  definition : after.combat.map CombatState.definition = before.combat.map CombatState.definition
  combatants : SamePurses before.combatants after.combatants

namespace Equipped

variable {first second third world : World}

theorem trans (hfirst : Equipped first second) (hsecond : Equipped second third) :
    Equipped first third :=
  ⟨hsecond.definition.trans hfirst.definition,
    IndexMap.Rel.trans (fun _ _ _ ↦ Combatant.SamePools.trans) hfirst.combatants hsecond.combatants⟩

theorem of_eq (hcombatants : second.combatants = first.combatants)
    (hdefinition : second.combat.map CombatState.definition =
      first.combat.map CombatState.definition) : Equipped first second := by
  refine ⟨hdefinition, ?_⟩
  rw [hcombatants]
  exact IndexMap.Rel.refl Combatant.SamePools.refl _

theorem modify (world : World) (id : EntityId) {transform : Combatant → Combatant}
    (hpools : ∀ combatant, Combatant.SamePools combatant (transform combatant)) :
    Equipped world (world.modifyCombatant id transform) :=
  ⟨rfl, IndexMap.Rel.modify Combatant.SamePools.refl _ fun combatant _ ↦ hpools combatant⟩

end Equipped

/-- A pass keeps the identities of pools. -/
theorem Passed.equipped {strict : Prop} {before after : World}
    (hpassed : Passed strict before after) : Equipped before after where
  definition := by
    have hrules := congrArg (Option.map Prod.fst) hpassed.rules
    rw [Option.map_map, Option.map_map] at hrules
    exact hrules
  combatants := IndexMap.Rel.imp (fun _ _ ↦ Combatant.Passes.purse) hpassed.combatants

section Operations

variable {world next : World} {facts : TransitionFacts}

/-- A store whose combatants, in the same order, hold the pools of another's with less in them. -/
abbrev ChargedPurses := IndexMap.Rel (κ := EntityId) Combatant.Charged

theorem ChargedPurses.trans {first second third : ComponentStore Combatant}
    (hfirst : ChargedPurses first second) (hsecond : ChargedPurses second third) :
    ChargedPurses first third :=
  IndexMap.Rel.trans (fun _ _ _ ↦ Combatant.Charged.trans) hfirst hsecond

theorem spendCosts_charged {actor : EntityId} {costs : List (Ulid × ℕ)}
    (hspend : spendCosts world actor costs = .ok next) :
    ChargedPurses world.combatants next.combatants := by
  simp only [spendCosts, Result.bind_eq_ok_iff, Result.expect_eq_ok_iff] at hspend
  obtain ⟨combatant, hget, spent, hspent, hnext⟩ := hspend
  rw [← Result.ok.inj hnext]
  refine IndexMap.Rel.modify Combatant.Charged.refl _ fun value hvalue ↦ ?_
  rw [← Option.some.inj (hget.symm.trans hvalue)]
  refine Result.foldlM_preserves (motive := Combatant.Charged combatant) ?_
    (Combatant.Charged.refl combatant) hspent
  intro cost _ state after hstate hafter
  exact hstate.trans (spendCost_charged hafter)

def Combatant.EqualPools (before after : Combatant) : Prop := after.pools = before.pools

theorem Combatant.EqualPools.refl (combatant : Combatant) : EqualPools combatant combatant := rfl

/-- Two stores with the same combatants in the same order, with the same pools. -/
abbrev EqualPurses := IndexMap.Rel (κ := EntityId) Combatant.EqualPools

theorem EqualPurses.charged {before after : ComponentStore Combatant}
    (hequal : EqualPurses before after) : ChargedPurses before after := by
  refine IndexMap.Rel.imp (fun first second hsame ↦ ?_) hequal
  rw [Combatant.Charged, show second.pools = first.pools from hsame]
  exact forall₂_lowered_refl _

theorem EqualPurses.refl (store : ComponentStore Combatant) : EqualPurses store store :=
  IndexMap.Rel.refl Combatant.EqualPools.refl store

theorem EqualPurses.trans {first second third : ComponentStore Combatant}
    (hfirst : EqualPurses first second) (hsecond : EqualPurses second third) :
    EqualPurses first third :=
  IndexMap.Rel.trans (fun _ _ _ hone htwo ↦ Eq.trans htwo hone) hfirst hsecond

theorem equalPurses_modify (world : World) (id : EntityId) {transform : Combatant → Combatant}
    (hpools : ∀ combatant, Combatant.EqualPools combatant (transform combatant)) :
    EqualPurses world.combatants (world.modifyCombatant id transform).combatants :=
  IndexMap.Rel.modify Combatant.EqualPools.refl _ fun combatant _ ↦ hpools combatant

theorem applyDamage_pools {target : EntityId} {damage : ℕ} {died : Bool}
    (hdamage : applyDamage world target damage = .ok (next, died)) :
    next.combat = world.combat ∧ EqualPurses world.combatants next.combatants := by
  have hhits := equalPurses_modify world target (show ∀ combatant : Combatant,
    combatant.EqualPools (combatant.hit damage) from fun _ ↦ rfl)
  unfold applyDamage at hdamage
  split_ifs at hdamage
  · obtain ⟨state, -, hhit⟩ := Result.bind_eq_ok_iff.mp hdamage
    dsimp only at hhit
    split_ifs at hhit
    · rw [← (Prod.mk.inj (Result.ok.inj hhit)).1]
      exact ⟨rfl, hhits⟩
    · rw [← (Prod.mk.inj (Result.ok.inj hhit)).1]
      exact ⟨rfl, hhits⟩
  · rw [← (Prod.mk.inj (Result.ok.inj hdamage)).1]
    exact ⟨rfl, EqualPurses.refl _⟩

theorem applyEffect_pools (world : World) (definition : CombatDefinition)
    (entry : AbilityDefinition) (outcome : Outcome) (actor target : EntityId) (round : ℕ) :
    (applyEffect world definition entry outcome actor target round).combat = world.combat ∧
      EqualPurses world.combatants
        (applyEffect world definition entry outcome actor target round).combatants := by
  unfold applyEffect attachEffect
  split
  · split
    · split
      · exact ⟨rfl, EqualPurses.refl _⟩
      · exact ⟨rfl, equalPurses_modify world _ fun _ ↦ rfl⟩
    · exact ⟨rfl, EqualPurses.refl _⟩
  · exact ⟨rfl, EqualPurses.refl _⟩

theorem resolveUse_pools {actor target : EntityId} {ability : Ulid} {outcome : ActionOutcome}
    (hresolve : resolveUse world actor ability target = .ok (outcome, next)) :
    ∃ combat entry interners rng spent, world.combat = some combat ∧
      abilityEntry combat.definition ability = some entry ∧
      spendCosts { world with interners := interners, rng := rng } actor entry.costs = .ok spent ∧
      next.combat = world.combat ∧ EqualPurses spent.combatants next.combatants := by
  simp only [resolveUse, Result.bind_ok_iff, Result.pure_eq, Result.expect_eq_ok_iff] at hresolve
  obtain ⟨combat, hcombat, entry, hentry, plan, -, resolved, -, damage, -, spent, hspent, damaged,
    hdamaged, roll, -, hnext⟩ := hresolve
  obtain ⟨interners, hinterned⟩ := internDefense_frame world entry.defense
  rw [hinterned] at hspent
  obtain ⟨hhitCombat, hhit⟩ := applyDamage_pools hdamaged
  obtain ⟨heffectCombat, heffect⟩ := applyEffect_pools damaged.1 combat.definition entry
    resolved.1.decision.outcome actor target combat.round
  have hspentCombat : spent.combat = world.combat := by
    obtain ⟨combatants, hspentEq, -⟩ := spendCosts_frame hspent
    rw [hspentEq]
  rw [← (Prod.mk.inj (Result.ok.inj hnext)).2]
  exact ⟨combat, entry, interners, damage.2, spent, hcombat, hentry, hspent,
    (heffectCombat.trans hhitCombat).trans hspentCombat, hhit.trans heffect⟩

theorem resolveUse_charged {actor target : EntityId} {ability : Ulid} {outcome : ActionOutcome}
    (hresolve : resolveUse world actor ability target = .ok (outcome, next)) :
    ChargedPurses world.combatants next.combatants := by
  obtain ⟨_, _, _, _, spent, -, -, hspent, -, hpools⟩ := resolveUse_pools hresolve
  exact (spendCosts_charged hspent).trans hpools.charged

theorem resolveUse_equipped {actor target : EntityId} {ability : Ulid} {outcome : ActionOutcome}
    (hresolve : resolveUse world actor ability target = .ok (outcome, next)) :
    Equipped world next := by
  obtain ⟨_, _, _, _, _, -, -, -, hcombat, -⟩ := resolveUse_pools hresolve
  exact ⟨congrArg (Option.map CombatState.definition) hcombat,
    IndexMap.Rel.imp (fun _ _ ↦ Combatant.Charged.samePools) (resolveUse_charged hresolve)⟩

/-- An accepted action keeps the identities of pools. -/
theorem performActionTracked_equipped {action : CombatAction}
    {produced : Option ActionOutcome × TransitionFacts}
    (hperform : performActionTracked world action = .ok (produced, next)) :
    Equipped world next := by
  rcases performActionTracked_cases False.elim hperform with ⟨-, htransits⟩ |
    ⟨_, _, -, ⟨_, _, _, -, -, hresolve⟩, htransits⟩
  · exact htransits.passed.equipped
  · exact (resolveUse_equipped hresolve).trans htransits.passed.equipped

/-- One due order keeps the identities of pools. -/
theorem executeOrder_equipped {elapsed roundTicks : ℕ} {actor : EntityId} {order : StandingOrder}
    {event : TickEvent}
    (hexecute : executeOrder elapsed roundTicks world actor order = .ok (event, next)) :
    Equipped world next := by
  obtain ⟨-, ⟨-, hpassed⟩ | ⟨_, _, -, ⟨_, _, _, -, -, hresolve⟩, hpassed⟩⟩ :=
    executeOrder_cases False hexecute
  · exact hpassed.equipped
  · exact (resolveUse_equipped hresolve).trans hpassed.equipped

end Operations

end Crpg.Sim
