import Crpg.Sim.Grounding

/-!
# Health and death

What the controller does to health. A boundary pass changes pools, attachments and orders, and of
the dead not even the pools (`Rested`). A resolution takes health from its target only, and queues
one death exactly when it takes the last of it (`Harmed`). Both compose, so an accepted action and a
tick each leave a harmed world behind: nobody gains health, and every death is queued once.
-/

set_option autoImplicit false

namespace Crpg.Sim

open Crpg.Core Crpg.Lib Crpg.Rules Crpg.Data

/-! ### One combatant -/

/-- What the controller leaves of a combatant: who it is; its health does not grow, and the dead
keep their health and their pools. -/
structure Combatant.Endures (before after : Combatant) : Prop where
  placement : after.placement = before.placement
  maxHealth : after.maxHealth = before.maxHealth
  entered : after.entered = before.entered
  health : after.health ≤ before.health
  mortal : (before.dead = true ↔ before.health = 0) → (after.dead = true ↔ after.health = 0)
  dead : before.dead = true → after.dead = true ∧ after.health = before.health ∧
    after.actionPool = before.actionPool ∧ after.extraPools = before.extraPools

structure Combatant.Rests (before after : Combatant) : Prop
    extends Combatant.Endures before after where
  alive : after.dead = before.dead

namespace Combatant

theorem Endures.refl (combatant : Combatant) : Endures combatant combatant :=
  ⟨rfl, rfl, rfl, le_rfl, id, fun hdead ↦ ⟨hdead, rfl, rfl, rfl⟩⟩

theorem Endures.trans {first second third : Combatant} (hfirst : Endures first second)
    (hsecond : Endures second third) : Endures first third where
  placement := hsecond.placement.trans hfirst.placement
  maxHealth := hsecond.maxHealth.trans hfirst.maxHealth
  entered := hsecond.entered.trans hfirst.entered
  health := hsecond.health.trans hfirst.health
  mortal := fun hmortal ↦ hsecond.mortal (hfirst.mortal hmortal)
  dead := by
    intro hdead
    obtain ⟨hmiddle, hhealth, haction, hextra⟩ := hfirst.dead hdead
    obtain ⟨hlast, hhealth', haction', hextra'⟩ := hsecond.dead hmiddle
    exact ⟨hlast, hhealth'.trans hhealth, haction'.trans haction, hextra'.trans hextra⟩

theorem Rests.refl (combatant : Combatant) : Rests combatant combatant :=
  ⟨Endures.refl combatant, rfl⟩

theorem Rests.trans {first second third : Combatant} (hfirst : Rests first second)
    (hsecond : Rests second third) : Rests first third :=
  ⟨hfirst.toEndures.trans hsecond.toEndures, hsecond.alive.trans hfirst.alive⟩

theorem Stands.rests {before after : Combatant} (hstands : Stands before after)
    (halive : before.dead = false) : Rests before after where
  placement := hstands.placement
  maxHealth := hstands.maxHealth
  entered := hstands.entered
  health := hstands.health.le
  mortal := by
    intro hmortal
    rw [hstands.alive, hstands.health]
    exact hmortal
  dead := fun hdead ↦ absurd (hdead.symm.trans halive) (by decide)
  alive := hstands.alive

theorem Passes.rests {before after : Combatant} (hpasses : Passes True before after) :
    Rests before after where
  placement := hpasses.placement
  maxHealth := hpasses.maxHealth
  entered := hpasses.entered
  health := hpasses.health.le
  mortal := by
    intro hmortal
    rw [hpasses.alive, hpasses.health]
    exact hmortal
  dead := fun hdead ↦ ⟨hpasses.alive.trans hdead, hpasses.health, hpasses.dead trivial hdead⟩
  alive := hpasses.alive

/-- Another order and other attachments. -/
theorem rests_order (combatant : Combatant) (order : Option StandingOrder)
    (attached : List AttachedEffect) :
    Rests combatant { combatant with order := order, attached := attached } :=
  ⟨⟨rfl, rfl, rfl, le_rfl, id, fun hdead ↦ ⟨hdead, rfl, rfl, rfl⟩⟩, rfl⟩

theorem endures_hit {combatant : Combatant} (halive : combatant.dead = false) (damage : ℕ) :
    Endures combatant (combatant.hit damage) where
  placement := rfl
  maxHealth := rfl
  entered := rfl
  health := Nat.sub_le _ _
  mortal := by
    intro _
    simp [hit, halive]
  dead := fun hdead ↦ absurd (hdead.symm.trans halive) (by decide)

end Combatant

/-! ### Worlds -/

/-- A world after boundary passes: every combatant rests, and nothing was queued. -/
structure Rested (before after : World) : Prop where
  combatants : IndexMap.Rel Combatant.Rests before.combatants after.combatants
  events : after.events = before.events

/-- The payloads of a queue, oldest first. -/
def World.payloads (world : World) : List SimEvent :=
  world.events.envelopes.map EventEnvelope.payload

/-- A world after resolutions: every combatant endures, and the queue has one death more for each
combatant that was alive and is not. -/
structure Harmed (before after : World) : Prop where
  combatants : IndexMap.Rel Combatant.Endures before.combatants after.combatants
  fallen : ∃ ids : List EntityId, ids.Nodup ∧
    (∀ id, id ∈ ids ↔ Living before.combatants id ∧ ¬Living after.combatants id) ∧
    after.payloads = before.payloads ++ ids.map SimEvent.died

variable {first second third : World}

theorem living_of_endures {before after : ComponentStore Combatant} {id : EntityId}
    (hrel : IndexMap.Rel Combatant.Endures before after) (hliving : Living after id) :
    Living before id := by
  obtain ⟨combatant, hget, halive⟩ := hliving
  obtain ⟨old, hold, hendures⟩ := hrel.get?_eq_some hget
  refine ⟨old, hold, Bool.eq_false_iff.mpr fun hdead ↦ ?_⟩
  exact absurd ((hendures.dead hdead).1.symm.trans halive) (by decide)

theorem living_iff_of_rests {before after : ComponentStore Combatant} {id : EntityId}
    (hrel : IndexMap.Rel Combatant.Rests before after) : Living after id ↔ Living before id := by
  constructor
  · exact living_of_endures (IndexMap.Rel.imp (fun _ _ ↦ Combatant.Rests.toEndures) hrel)
  · rintro ⟨combatant, hget, halive⟩
    obtain ⟨new, hnew, hrests⟩ := hrel.get?_eq_some' hget
    exact ⟨new, hnew, hrests.alive.trans halive⟩

namespace Rested

theorem refl (world : World) : Rested world world :=
  ⟨IndexMap.Rel.refl Combatant.Rests.refl _, rfl⟩

theorem trans (hfirst : Rested first second) (hsecond : Rested second third) : Rested first third :=
  ⟨IndexMap.Rel.trans (fun _ _ _ ↦ Combatant.Rests.trans) hfirst.combatants hsecond.combatants,
    hsecond.events.trans hfirst.events⟩

theorem living_iff (hrested : Rested first second) {id : EntityId} :
    Living second.combatants id ↔ Living first.combatants id :=
  living_iff_of_rests hrested.combatants

theorem harmed (hrested : Rested first second) : Harmed first second where
  combatants := IndexMap.Rel.imp (fun _ _ ↦ Combatant.Rests.toEndures) hrested.combatants
  fallen := by
    refine ⟨[], List.nodup_nil, fun id ↦ ?_, ?_⟩
    · rw [hrested.living_iff]
      exact ⟨fun hnone ↦ absurd hnone List.not_mem_nil, fun hboth ↦ absurd hboth.1 hboth.2⟩
    · rw [World.payloads, World.payloads, hrested.events, List.map_nil, List.append_nil]

/-- Another timeline, another encounter state, other names and streams. -/
theorem of_eq (hcombatants : second.combatants = first.combatants)
    (hevents : second.events = first.events) : Rested first second := by
  refine ⟨?_, hevents⟩
  rw [hcombatants]
  exact IndexMap.Rel.refl Combatant.Rests.refl _

end Rested

/-- A pass where the dead keep their pools. -/
theorem Passed.rested (hpassed : Passed True first second) : Rested first second := by
  refine ⟨IndexMap.Rel.imp (fun _ _ ↦ Combatant.Passes.rests) hpassed.combatants, ?_⟩
  obtain ⟨_, _, _, rfl⟩ := hpassed.frame
  rfl

namespace Harmed

theorem refl (world : World) : Harmed world world := (Rested.refl world).harmed

theorem living (hharmed : Harmed first second) {id : EntityId}
    (hliving : Living second.combatants id) : Living first.combatants id :=
  living_of_endures hharmed.combatants hliving

theorem trans (hfirst : Harmed first second) (hsecond : Harmed second third) :
    Harmed first third where
  combatants := IndexMap.Rel.trans (fun _ _ _ ↦ Combatant.Endures.trans) hfirst.combatants
    hsecond.combatants
  fallen := by
    obtain ⟨early, hearly, hfell, hqueued⟩ := hfirst.fallen
    obtain ⟨late, hlate, hfell', hqueued'⟩ := hsecond.fallen
    refine ⟨early ++ late, ?_, fun id ↦ ?_, ?_⟩
    · refine List.nodup_append.mpr ⟨hearly, hlate, fun id hid other hother heq ↦ ?_⟩
      subst heq
      exact ((hfell id).mp hid).2 ((hfell' id).mp hother).1
    · rw [List.mem_append, hfell, hfell']
      constructor
      · rintro (⟨hbefore, hafter⟩ | ⟨hbefore, hafter⟩)
        · exact ⟨hbefore, fun hlast ↦ hafter (hsecond.living hlast)⟩
        · exact ⟨hfirst.living hbefore, hafter⟩
      · rintro ⟨hbefore, hafter⟩
        by_cases hmiddle : Living second.combatants id
        · exact Or.inr ⟨hmiddle, hafter⟩
        · exact Or.inl ⟨hbefore, hmiddle⟩
    · rw [hqueued', hqueued, List.map_append, List.append_assoc]

end Harmed

/-! ### Resolution -/

variable {world next : World}

theorem spendCosts_rested {actor : EntityId} {costs : List (Ulid × ℕ)}
    (hactor : Living world.combatants actor) (hspend : spendCosts world actor costs = .ok next) :
    Rested world next := by
  simp only [spendCosts, Result.bind_eq_ok_iff, Result.expect_eq_ok_iff] at hspend
  obtain ⟨combatant, hget, spent, hspent, hnext⟩ := hspend
  cases hnext
  refine ⟨IndexMap.Rel.modify Combatant.Rests.refl _ fun value hvalue ↦ ?_, rfl⟩
  rw [hget, Option.some.injEq] at hvalue
  subst hvalue
  obtain ⟨found, hfound, halive⟩ := hactor
  rw [hget, Option.some.injEq] at hfound
  have hstands : Combatant.Stands combatant spent := by
    refine Result.foldlM_preserves (motive := Combatant.Stands combatant) ?_
      (Combatant.Stands.refl combatant) hspent
    intro cost _ state after hstate hafter
    exact hstate.trans (spendCost_keeps hafter)
  exact hstands.rests (hfound ▸ halive)

theorem applyEffect_rested (world : World) (definition : CombatDefinition)
    (entry : AbilityDefinition) (outcome : Outcome) (actor target : EntityId) (round : ℕ) :
    Rested world (applyEffect world definition entry outcome actor target round) := by
  unfold applyEffect attachEffect
  split
  · split
    · split
      · exact Rested.refl world
      · refine ⟨IndexMap.Rel.modify Combatant.Rests.refl _ fun combatant _ ↦ ?_, rfl⟩
        exact combatant.rests_order combatant.order _
    · exact Rested.refl world
  · exact Rested.refl world

/-- The damage of one resolution: the target loses health, and its death is queued exactly when it
loses the last of it. -/
theorem applyDamage_harmed {target : EntityId} {damage : ℕ} {died : Bool}
    (htarget : Living world.combatants target)
    (hdamage : applyDamage world target damage = .ok (next, died)) :
    Harmed world next ∧ (died = true ↔ ¬Living next.combatants target) ∧
      next.payloads = world.payloads ++ if died then [.died target] else [] := by
  unfold applyDamage at hdamage
  split_ifs at hdamage with hpositive
  · obtain ⟨state, hstate, hhit⟩ := Result.bind_eq_ok_iff.mp hdamage
    rw [Result.expect_eq_ok_iff] at hstate
    obtain ⟨found, hfound, halive⟩ := htarget
    rw [hstate, Option.some.injEq] at hfound
    subst hfound
    have hrel : IndexMap.Rel Combatant.Endures world.combatants
        (world.combatants.modify target fun state ↦ state.hit damage) := by
      refine IndexMap.Rel.modify Combatant.Endures.refl _ fun value hvalue ↦ ?_
      rw [hstate, Option.some.injEq] at hvalue
      exact Combatant.endures_hit (hvalue ▸ halive) damage
    have hat : (world.combatants.modify target fun state ↦ state.hit damage).get? target =
        some (state.hit damage) := by
      rw [IndexMap.get?_modify_self, hstate]
      rfl
    have hdies : Living (world.combatants.modify target fun state ↦ state.hit damage) target ↔
        state.health - damage ≠ 0 := by
      constructor
      · rintro ⟨after, hafter, hlives⟩ hzero
        rw [hat, Option.some.injEq] at hafter
        rw [← hafter, Combatant.hit, hzero] at hlives
        simp at hlives
      · intro hlives
        exact ⟨_, hat, by simp [Combatant.hit, halive, hlives]⟩
    have hothers {id : EntityId} (hne : id ≠ target) :
        Living (world.combatants.modify target fun state ↦ state.hit damage) id ↔
          Living world.combatants id := by
      rw [Living, Living, IndexMap.get?_modify, if_neg hne]
    have hfell (id : EntityId) : (Living world.combatants id ∧
        ¬Living (world.combatants.modify target fun state ↦ state.hit damage) id) ↔
          id = target ∧ state.health - damage = 0 := by
      by_cases hid : id = target
      · subst hid
        rw [hdies, not_not]
        exact and_congr_left fun _ ↦ iff_of_true ⟨state, hstate, halive⟩ rfl
      · rw [hothers hid]
        exact iff_of_false (fun hboth ↦ hboth.2 hboth.1) fun hboth ↦ hid hboth.1
    dsimp only at hhit
    split_ifs at hhit with hzero
    · cases hhit
      have hqueue : World.payloads { world.modifyCombatant target fun state ↦ state.hit damage with
          events := world.events.push world.tick (.died target) } =
            world.payloads ++ [.died target] := List.map_append
      refine ⟨⟨hrel, [target], List.nodup_singleton target, fun id ↦ ?_, hqueue⟩, ?_, hqueue⟩
      · rw [List.mem_singleton]
        exact ((hfell id).trans (and_iff_left hzero)).symm
      · exact iff_of_true rfl fun hlives ↦ hdies.mp hlives hzero
    · cases hhit
      refine ⟨⟨hrel, [], List.nodup_nil, fun id ↦ ?_, (List.append_nil _).symm⟩, ?_,
        (List.append_nil _).symm⟩
      · exact iff_of_false List.not_mem_nil fun hboth ↦ hzero ((hfell id).mp hboth).2
      · exact iff_of_false (by decide) fun hgone ↦ hgone (hdies.mpr hzero)
  · cases hdamage
    exact ⟨Harmed.refl world, iff_of_false (by decide) fun hgone ↦ hgone htarget,
      (List.append_nil _).symm⟩

/-- A resolution between two living combatants harms the target only, and queues its death exactly
when it dies. -/
theorem resolveUse_harmed {actor target : EntityId} {ability : Ulid} {outcome : ActionOutcome}
    (hactor : Living world.combatants actor) (htarget : Living world.combatants target)
    (hresolve : resolveUse world actor ability target = .ok (outcome, next)) :
    Harmed world next ∧ (outcome.targetDied = true ↔ ¬Living next.combatants target) ∧
      next.payloads = world.payloads ++ if outcome.targetDied then [.died target] else [] := by
  simp only [resolveUse, Result.bind_ok_iff, Result.pure_eq] at hresolve
  obtain ⟨combat, -, entry, -, plan, -, resolved, -, damage, -, spent, hspent, damaged, hdamaged,
    roll, -, hnext⟩ := hresolve
  simp only [Result.ok.injEq, Prod.mk.injEq] at hnext
  obtain ⟨rfl, rfl⟩ := hnext
  obtain ⟨interners, hinterned⟩ := internDefense_frame world entry.defense
  rw [hinterned] at hspent
  have hspending : Rested world spent := by
    have hbefore : Rested world { world with interners := interners, rng := damage.2 } :=
      Rested.of_eq rfl rfl
    exact hbefore.trans (spendCosts_rested hactor hspent)
  obtain ⟨hharmed, hdied, hqueued⟩ := applyDamage_harmed (hspending.living_iff.mpr htarget) hdamaged
  have heffect := applyEffect_rested damaged.1 combat.definition entry
    resolved.1.decision.outcome actor target combat.round
  have hsame : spent.payloads = world.payloads := by
    rw [World.payloads, World.payloads, hspending.events]
  refine ⟨hspending.harmed.trans (hharmed.trans heffect.harmed), ?_, ?_⟩
  · rw [heffect.living_iff]
    exact hdied
  · rw [← hsame, World.payloads, heffect.events]
    exact hqueued

/-! ### Actions and the tick -/

theorem performActionTracked_harmed {action : CombatAction}
    {facts : Option ActionOutcome × TransitionFacts} (hcoherent : Coherent world)
    (hperform : performActionTracked world action = .ok (facts, next)) : Harmed world next := by
  rcases performActionTracked_cases (fun _ : True ↦ hcoherent) hperform with ⟨-, htransits⟩ |
    ⟨_, resolved, -, ⟨actor, ability, target, hactor, htarget, hresolve⟩, htransits⟩
  · exact htransits.passed.rested.harmed
  · exact (resolveUse_harmed hactor htarget hresolve).1.trans htransits.passed.rested.harmed

theorem executeOrder_harmed {elapsed roundTicks : ℕ} {actor : EntityId} {order : StandingOrder}
    {event : TickEvent}
    (hexecute : executeOrder elapsed roundTicks world actor order = .ok (event, next)) :
    Harmed world next := by
  obtain ⟨-, ⟨-, hpassed⟩ |
    ⟨_, resolved, -, ⟨_, ability, target, hactor, htarget, hresolve⟩, hpassed⟩⟩ :=
    executeOrder_cases True hexecute
  · exact hpassed.rested.harmed
  · exact (resolveUse_harmed hactor htarget hresolve).1.trans hpassed.rested.harmed

/-- A dead entry of the execution pass is passed over. -/
theorem executeDue_dead {elapsed roundTicks : ℕ} {state : List TickEvent × World} {actor : EntityId}
    {combatant : Combatant} (hget : state.2.combatants.get? actor = some combatant)
    (hdead : combatant.dead = true) : executeDue elapsed roundTicks state actor = .ok state := by
  unfold executeDue
  split_ifs with hfew
  · rfl
  · rw [hget]
    exact if_pos (Or.inl hdead)

theorem executionStage_harmed {before : TransitionFacts} {facts : TickFacts}
    (hstage : executionStage world before = .ok (facts, next)) : Harmed world next := by
  refine (executionStage_induct (motive := fun _ state ↦ Harmed world state) (Harmed.refl world)
    ?_ hstage).1
  intro _ _ _ state after actor order event hstate _ _ hexecute
  exact hstate.trans (executeOrder_harmed hexecute)

theorem tickTracked_harmed {facts : TickFacts} (hcoherent : Coherent world)
    (htick : tickTracked world = .ok (facts, next)) : Harmed world next := by
  unfold tickTracked at htick
  obtain ⟨⟨_, staged⟩, hclock, hexecute⟩ := Result.bind_eq_ok_iff.mp htick
  have hliving : True → ScheduledLiving world.advanceTick.timeline world.advanceTick.combatants :=
    fun _ ↦ hcoherent.scheduledLiving
  have hstaged := (clockStage_transits hliving hclock).passed.rested
  have hadvanced : Rested world staged := ⟨hstaged.combatants, hstaged.events⟩
  exact hadvanced.harmed.trans (executionStage_harmed hexecute)

/-! ### Leaving -/

/-- The encounter after a removal. Assumes: only the living are scheduled. -/
theorem settleDespawn_rested {stripped : World} {prior : Option CombatState} {id : EntityId}
    {facts : TransitionFacts} (hliving : ScheduledLiving stripped.timeline stripped.combatants)
    (hsettle : settleDespawn stripped prior id = .ok (facts, next)) : Rested stripped next := by
  unfold settleDespawn at hsettle
  split_ifs at hsettle
  · cases hsettle
    exact Rested.of_eq rfl rfl
  · exact (advanceTracked_transits (fun _ ↦ hliving) hsettle).passed.rested
  · cases hsettle
    exact Rested.refl next

theorem despawnTracked_rested {id : EntityId} {facts : Bool × TransitionFacts}
    (hcoherent : Coherent world) (hdespawn : despawnTracked world id = .ok (facts, next)) :
    next = world ∨ ∃ settled, Rested (strip world (world.entities.remove id).2 id) settled ∧
      Controlled (strip world (world.entities.remove id).2 id) settled ∧
      next = { settled with events := settled.events.push settled.tick (.despawned id) } := by
  unfold despawnTracked at hdespawn
  split at hdespawn
  · cases hdespawn
    exact Or.inl rfl
  · next value entities hremove =>
    obtain ⟨⟨transition, settled⟩, hsettle, hnext⟩ := Result.bind_eq_ok_iff.mp hdespawn
    simp only [Result.ok.injEq, Prod.mk.injEq] at hnext
    obtain ⟨-, rfl⟩ := hnext
    have hentities : entities = (world.entities.remove id).2 := by rw [hremove]
    subst hentities
    exact Or.inr ⟨settled, settleDespawn_rested hcoherent.scheduledLiving.shiftRemove hsettle,
      (settleDespawn_controlled hsettle).1, rfl⟩

end Crpg.Sim
