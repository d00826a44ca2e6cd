import Crpg.Rules.Definitions
import Crpg.Sim.CreatureFormat
import Crpg.Sim.MortalityRun

/-!
# Leaving and entering again

A combatant becomes a record when its encounter releases it (`exitRecord`) and a combatant again
when another encounter takes the record (`enterCombatant`). No operation rewrites a record: one
keeps it or takes it away (`Transition.same_record`). A record therefore travels unchanged past
other encounters, through transfers, and through a save and its load (`Travels`), and what enters at
the end is what was released. Over a chain of encounters a creature loses of its effects the rounds
it spent inside them and nothing else (`Chain.resumes`).
-/

set_option autoImplicit false

namespace Crpg.Sim

open Crpg.Core Crpg.Lib Crpg.Rules Crpg.Data
open Result (bind_ok_iff expect_eq_ok_iff pure_ok_iff)

/-! ### One crossing -/

/-- What a creature takes from one encounter to another: everything but its effects. -/
structure Preserved (before after : Combatant) : Prop where
  placement : after.placement = before.placement
  attributes : after.attributes = before.attributes
  fixed : after.fixed = before.fixed
  health : after.health = before.health
  maxHealth : after.maxHealth = before.maxHealth
  pools : after.actionPool :: after.extraPools = before.actionPool :: before.extraPools
  tags : ∀ tag, tag ∈ after.tags ↔ tag ∈ before.tags

theorem Preserved.trans {first second third : Combatant} (hfirst : Preserved first second)
    (hsecond : Preserved second third) : Preserved first third where
  placement := hsecond.placement.trans hfirst.placement
  attributes := hsecond.attributes.trans hfirst.attributes
  fixed := hsecond.fixed.trans hfirst.fixed
  health := hsecond.health.trans hfirst.health
  maxHealth := hsecond.maxHealth.trans hfirst.maxHealth
  pools := hsecond.pools.trans hfirst.pools
  tags tag := (hsecond.tags tag).trans (hfirst.tags tag)

def CombatDefinition.knows (definition : CombatDefinition) (effect : Ulid) : Bool :=
  (effectEntry definition effect).isSome

/-- The effects that were unexpired at the round of the exit and that the definition of the entry
knows, each with the rounds it had left. -/
def resumedAt (definition : CombatDefinition) (left entered : ℕ) (attached : List AttachedEffect) :
    List AttachedEffect :=
  (attached.filter fun item ↦ decide (left < item.expiresRound) &&
    definition.knows item.effect).map fun item ↦
      ⟨item.effect, saturatingAdd u32Max entered (item.expiresRound - left)⟩

theorem enterCombatant_exitRecord {before : Combatant} {ruleset : Ulid} {left : ℕ}
    {lifecycle : Lifecycle} (hdue : before.entered = true ∨ lifecycle.respawns = false) :
    ∃ record, exitRecord before ruleset left lifecycle true = some record ∧
      ∀ (definition : CombatDefinition) (round : ℕ) (initiative : ℤ), ∃ after,
        enterCombatant definition record round initiative = .ok after ∧
        (Preserved before after ∧ after.entered = true) ∧ (lifecycle.effectsOnExit = .suspend →
          after.attached = resumedAt definition left round before.attached) ∧
        (lifecycle.effectsOnExit ≠ .suspend → after.attached = []) := by
  have hcond : (before.entered || !lifecycle.respawns) = true := by
    cases hdue with
    | inl hentered => rw [hentered, Bool.true_or]
    | inr hstays => rw [hstays, Bool.not_false, Bool.or_true]
  refine ⟨_, if_pos hcond, fun definition round initiative ↦ ⟨_, rfl, ⟨?_, rfl⟩, ?_, ?_⟩⟩
  · exact ⟨rfl, rfl, rfl, rfl, rfl, rfl, fun _ ↦ mem_sortDedup⟩
  · intro hsuspend
    dsimp only
    rw [hsuspend, if_pos rfl, List.filter_map, List.filter_filter, List.map_map]
    simp only [resumedAt, CombatDefinition.knows, Function.comp_def, Bool.and_comm]
  · intro hstrip
    dsimp only
    cases hrule : lifecycle.effectsOnExit with
    | suspend => exact absurd hrule hstrip
    | strip => rfl
    | stripAtRelease => rfl

/-! ### The way of a record -/

section Records

variable {world next : World} {id : EntityId} {record kept : CreatureState}

theorem despawnTracked_record (hcoherent : Coherent world) {gone : EntityId}
    {facts : Bool × TransitionFacts} (hdespawn : despawnTracked world gone = .ok (facts, next))
    (hget : world.creatures.get? id = some record) (hkept : next.creatures.get? id = some kept) :
    kept = record := by
  obtain rfl | ⟨settled, -, hcontrolled, rfl⟩ := despawnTracked_rested hcoherent hdespawn
  · exact Option.some.inj (hkept.symm.trans hget)
  · change settled.creatures.get? id = some kept at hkept
    rw [hcontrolled.creatures] at hkept
    change (world.creatures.shiftRemove gone).get? id = some kept at hkept
    rw [IndexMap.get?_shiftRemove] at hkept
    split_ifs at hkept
    exact Option.some.inj (hkept.symm.trans hget)

theorem ne_of_spawn (hgrounded : Grounded world) {data : EntityMeta} {minted : EntityId}
    {spawned : World} (hspawn : world.spawn data = some (minted, spawned))
    (hlive : world.contains id = true) : id ≠ minted := by
  obtain ⟨⟨_, _⟩, hinsert, hnext⟩ := Option.map_eq_some_iff.mp hspawn
  simp only [Prod.mk.injEq] at hnext
  obtain ⟨rfl, rfl⟩ := hnext
  have hfresh := GenerationalArena.not_contains_of_insert hgrounded.arena hinsert
  intro heq
  rw [heq] at hlive
  exact absurd (hlive.symm.trans hfresh) (by decide)

theorem Transition.same_record (hstep : Transition world next) (hreachable : Reachable world)
    (hget : world.creatures.get? id = some record) (hkept : next.creatures.get? id = some kept) :
    kept = record := by
  have hgrounded := grounded_of_reachable hreachable
  have hcoherent := coherent_of_reachable hreachable
  have hmortal := mortal_of_reachable hreachable
  have hlive := hgrounded.creatures id (IndexMap.mem_keys_iff.mpr ⟨record, hget⟩)
  have hsame (hcreatures : next.creatures.get? id = world.creatures.get? id) : kept = record :=
    Option.some.inj ((hkept.symm.trans hcreatures).trans hget)
  cases hstep with
  | spawn returned =>
    obtain ⟨_, _, rfl⟩ := spawn_frame returned
    exact hsame rfl
  | despawn returned => exact despawnTracked_record hcoherent returned hget hkept
  | register returned =>
    obtain ⟨spawned, _, hspawn, -, -, rfl⟩ := registerCreature_record returned
    have hne := ne_of_spawn hgrounded hspawn hlive
    obtain ⟨_, _, rfl⟩ := spawn_frame hspawn
    exact hsame (IndexMap.get?_insert.trans (if_neg hne))
  | start returned =>
    obtain ⟨-, _, _, _, _, published, -, -, -, hpublish, -, -, hcreatures, -⟩ :=
      started_of_start returned
    rw [hcreatures] at hkept
    refine Result.foldlM_preserves (motive := fun state : World ↦ ∀ kept,
      state.creatures.get? id = some kept → kept = record) ?_ ?_ hpublish kept hkept
    · intro entry _ state after hstate hafter later hlater
      exact hstate later ((published_of_publishMember hafter).records id later hlater)
    · intro later hlater
      exact Option.some.inj (hlater.symm.trans hget)
  | perform returned =>
    exact hsame (by rw [(performActionTracked_controlled returned).1.creatures])
  | requestMode returned =>
    simp only [Crpg.Sim.requestMode, bind_ok_iff, pure_ok_iff] at returned
    obtain ⟨_, -, _, -, rfl⟩ := returned
    exact hsame rfl
  | tick returned =>
    exact hsame (by rw [(tickTracked_controlled returned).1.creatures]; rfl)
  | transferOut _ returned =>
    obtain ⟨-, ⟨_, hremoved⟩, -⟩ := transferEntity_cases returned
    exact despawnTracked_record hcoherent hremoved hget hkept
  | @transferIn source _ _ _ entity _ _ returned =>
    obtain ⟨-, -, _, spawned, hspawn, rfl⟩ := transferEntity_cases returned
    have hne := ne_of_spawn hgrounded hspawn hlive
    obtain ⟨_, _, rfl⟩ := spawn_frame hspawn
    refine hsame ?_
    cases source.creatures.get? entity with
    | none => rfl
    | some moved => exact IndexMap.get?_insert.trans (if_neg hne)
  | endEncounter returned =>
    simp only [Crpg.Sim.endEncounter, bind_ok_iff, pure_ok_iff, Prod.mk.injEq] at returned
    obtain ⟨combat, -, -, rfl⟩ := returned
    have hidle : Entries.lookup id world.combatants.entries = none :=
      Option.eq_none_iff_forall_ne_some.mpr fun _ hfights ↦ hmortal.no_record hfights hget
    refine hsame ((get?_foldl_release combat _ world.combatants.nodup world id).trans ?_)
    rw [hidle]
    rfl

theorem transferEntity_record {source destination left entered : World} {entity moved : EntityId}
    (htransfer : transferEntity source destination entity = .ok (moved, left, entered))
    (hget : source.creatures.get? entity = some record) :
    entered.creatures.get? moved = some record := by
  obtain ⟨-, -, _, spawned, -, rfl⟩ := transferEntity_cases htransfer
  rw [hget]
  exact IndexMap.get?_insert.trans (if_pos rfl)

/-- One stage of the way of a creature outside encounters: an operation of its world that leaves it
there, a transfer to another area, or a save and its load. -/
inductive Travels : World × EntityId → World × EntityId → Prop
  | stays {world next : World} {id : EntityId} (step : Transition world next)
      (kept : next.creatures.contains id = true) : Travels (world, id) (next, id)
  | transfers {source destination left entered : World} {entity moved : EntityId}
      (destinationBefore : Reachable destination)
      (returned : transferEntity source destination entity = .ok (moved, left, entered)) :
      Travels (source, entity) (entered, moved)
  | reloads {world next : World} {id : EntityId} (loaded : Reloads world next) :
      Travels (world, id) (next, id)

theorem record_of_travels {first last : World × EntityId}
    (hway : Relation.ReflTransGen Travels first last) (hreachable : Reachable first.1)
    (hget : first.1.creatures.get? first.2 = some record) :
    Reachable last.1 ∧ last.1.creatures.get? last.2 = some record := by
  induction hway with
  | refl => exact ⟨hreachable, hget⟩
  | tail _ hstep ih =>
    obtain ⟨hbefore, hrecord⟩ := ih
    cases hstep with
    | stays step kept =>
      obtain ⟨found, hfound⟩ := Option.isSome_iff_exists.mp kept
      refine ⟨step.reachable hbefore, hfound.trans ?_⟩
      rw [step.same_record hbefore hrecord hfound]
    | transfers destinationBefore returned =>
      exact ⟨.transferIn hbefore destinationBefore returned,
        transferEntity_record returned hrecord⟩
    | reloads loaded =>
      obtain ⟨-, rfl⟩ := reloads_iff.mp loaded
      exact ⟨hbefore, hrecord⟩

end Records

/-! ### The release and the entry -/

theorem endEncounter_record {world next : World} {combat : CombatState}
    {summary : EncounterSummary} {id : EntityId} {combatant : Combatant} {record : CreatureState}
    (hcombat : world.combat = some combat) (hget : world.combatants.get? id = some combatant)
    (hend : endEncounter world = .ok (summary, next))
    (hexit : exitRecord combatant combat.definition.ruleset combat.round combat.lifecycle true =
      some record) : next.creatures.get? id = some record := by
  simp only [Crpg.Sim.endEncounter, hcombat, Result.okOr, Result.bind_eq, pure_ok_iff,
    Result.ok_bind, Prod.mk.injEq] at hend
  obtain ⟨-, rfl⟩ := hend
  refine (get?_foldl_release combat _ world.combatants.nodup world id).trans ?_
  have hlookup : Entries.lookup id world.combatants.entries = some combatant := hget
  rw [hlookup, Option.bind_some, hexit]
  rfl

theorem checkEntry_of_sourceOf {world : World} {prepared : Prepared} {member entering : Pending}
    {id : EntityId} {record : CreatureState} (hget : world.creatures.get? id = some record)
    (hsource : sourceOf world prepared member = .ok (entering, .enter id)) :
    checkEntry world prepared.definition prepared.granted id record = .ok () := by
  unfold sourceOf at hsource
  split_ifs at hsource with hrespawns
  · exact nomatch hsource
  · split at hsource
    · exact nomatch hsource
    · next entity found hfind =>
      split_ifs at hsource with hdead
      · exact nomatch hsource
      · obtain ⟨_, hcheck, hentry⟩ := Result.bind_eq_ok_iff.mp hsource
        simp only [Result.ok.injEq, Prod.mk.injEq, Source.enter.injEq] at hentry
        obtain ⟨-, rfl⟩ := hentry
        have hfound := IndexMap.mem_entries_iff.mp (List.mem_of_find?_eq_some hfind)
        rw [hget, Option.some.injEq] at hfound
        rw [hfound]
        exact hcheck

/-- The combatant that a start publishes under an identity with a record: the one that enters from
it, until the first turn. -/
structure EntersFrom (world : World) (definition : CombatDefinition) (granted : Finset String)
    (id : EntityId) (record : CreatureState) (entered : Combatant) : Prop where
  accepted : checkEntry world definition granted id record = .ok ()
  enters : ∃ initiative, enterCombatant definition record 0 initiative = .ok entered

/-- Publishing the participants: an identity with a record is not minted, keeps its record until it
enters, and fights as what entered from it. -/
theorem published_entersFrom {world : World} {mode : EncounterMode} {prepared : Prepared}
    {rolled : List (Pending × Source)} {published : World} {id : EntityId}
    {record : CreatureState} {combatant : Combatant} (hgrounded : Grounded world)
    (hidle : world.combatants.get? id = none) (hget : world.creatures.get? id = some record)
    (haccepted : (∃ entry ∈ rolled, entry.2 = .enter id) →
      checkEntry world prepared.definition prepared.granted id record = .ok ())
    {rng : DeterministicRng}
    (hpublish : Result.foldlM (publishMember mode prepared.definition) { world with rng := rng }
      rolled = .ok published)
    (hfights : published.combatants.get? id = some combatant) :
    EntersFrom world prepared.definition prepared.granted id record combatant := by
  have hlive := hgrounded.creatures id (IndexMap.mem_keys_iff.mpr ⟨record, hget⟩)
  refine (Result.foldlM_preserves (motive := fun state : World ↦ Grounded state ∧
    state.contains id = true ∧ (∀ kept, state.creatures.get? id = some kept → kept = record) ∧
    ∀ found, state.combatants.get? id = some found →
      EntersFrom world prepared.definition prepared.granted id record found)
    ?_ ?_ hpublish).2.2.2 combatant hfights
  · rintro entry hentry state after ⟨hground, halive, hrecords, hfighters⟩ hafter
    have hnext := hground.publishMember hafter
    unfold publishMember at hafter
    split at hafter
    · rw [← Result.ok.inj hafter]
      exact ⟨hground, halive, hrecords, hfighters⟩
    · next entity hsource =>
      simp only [bind_ok_iff, pure_ok_iff, expect_eq_ok_iff] at hafter
      obtain ⟨taken, htaken, entered, henters, rfl⟩ := hafter
      refine ⟨hnext, halive, fun kept hkept ↦ ?_, fun found hfound ↦ ?_⟩
      · change (state.creatures.shiftRemove entity).get? id = some kept at hkept
        rw [IndexMap.get?_shiftRemove] at hkept
        split_ifs at hkept
        exact hrecords kept hkept
      · change (state.combatants.insert entity entered).get? id = some found at hfound
        rw [IndexMap.get?_insert] at hfound
        by_cases hown : id = entity
        · rw [if_pos hown, Option.some.injEq] at hfound
          subst hown hfound
          rw [hrecords taken htaken] at henters
          exact ⟨haccepted ⟨entry, hentry, hsource⟩, _, henters⟩
        · rw [if_neg hown] at hfound
          exact hfighters found hfound
    · simp only [bind_ok_iff, pure_ok_iff, expect_eq_ok_iff] at hafter
      obtain ⟨⟨minted, spawned⟩, hspawn, fresh, -, rfl⟩ := hafter
      have hne := ne_of_spawn hground hspawn halive
      obtain ⟨⟨made, entities⟩, hinsert, hmade⟩ := Option.map_eq_some_iff.mp hspawn
      simp only [Prod.mk.injEq] at hmade
      obtain ⟨rfl, rfl⟩ := hmade
      refine ⟨hnext, (GenerationalArena.contains_insert hground.arena hinsert).2 id halive,
        hrecords, fun found hfound ↦ ?_⟩
      change (state.combatants.insert made fresh).get? id = some found at hfound
      rw [IndexMap.get?_insert, if_neg hne] at hfound
      exact hfighters found hfound
  · refine ⟨hgrounded.congr rfl rfl rfl rfl fun _ hmem ↦ hmem, hlive, fun kept hkept ↦ ?_,
      fun found hfound ↦ ?_⟩
    · exact Option.some.inj (hkept.symm.trans hget)
    · exact absurd (hidle.symm.trans hfound) (fun heq ↦ nomatch heq)

/-- Who fights after a start and had a record before it entered from the record at round zero; the
first turn refreshes the head of the schedule. Assumes: a reachable world. -/
theorem startEncounter_enters {world next : World} {spec : EncounterSpec} {mode : EncounterMode}
    {facts : StartFacts} {id : EntityId} {record : CreatureState} {combatant : Combatant}
    (hreachable : Reachable world)
    (hstart : startEncounterInModeTracked world spec mode = .ok (facts, next))
    (hget : world.creatures.get? id = some record)
    (hfights : next.combatants.get? id = some combatant) :
    ∃ combat granted entered, next.combat = some combat ∧ combat.round = 0 ∧
      EntersFrom world combat.definition granted id record entered ∧
      (combatant = entered ∨ combatant = entered.refresh .turnStart) := by
  have hgrounded := grounded_of_reachable hreachable
  have hmortal := mortal_of_reachable hreachable
  have hidle : world.combatants.get? id = none :=
    Option.eq_none_iff_forall_ne_some.mpr fun _ hbefore ↦ hmortal.no_record hbefore hget
  simp only [startEncounterInModeTracked, bind_ok_iff, pure_ok_iff, Prod.mk.injEq] at hstart
  obtain ⟨prepared, -, sources, hsources, _, -, ⟨rolledWorld, rolled⟩, hroll, published,
    hpublish, ⟨active, first⟩, hfirst, -, rfl⟩ := hstart
  have hkeyed := rollInitiative_keyed hroll
  obtain ⟨rng, rfl⟩ := rollInitiative_frame hroll
  have haccepted : (∃ entry ∈ rolled, entry.2 = .enter id) →
      checkEntry world prepared.definition prepared.granted id record = .ok () := by
    rintro ⟨entry, hentry, henters⟩
    obtain ⟨⟨entering, source⟩, hsource, hkept, -⟩ := exists_of_forall₂ hkeyed hentry
    obtain ⟨member, -, hmember⟩ :=
      exists_of_forall₂ (Result.mapM_eq_ok_iff.mp hsources) hsource
    rw [henters] at hkept
    dsimp only at hkept
    rw [← hkept] at hmember
    exact checkEntry_of_sourceOf hget hmember
  have henters {found : Combatant} (hfound : published.combatants.get? id = some found) :=
    published_entersFrom hgrounded hidle hget haccepted hpublish hfound
  change first.combatants.get? id = some combatant at hfights
  have hturn : ∃ entered, published.combatants.get? id = some entered ∧
      (combatant = entered ∨ combatant = entered.refresh .turnStart) := by
    unfold firstTurn at hfirst
    split at hfirst
    · rw [← (Prod.mk.inj (Result.ok.inj hfirst)).2] at hfights
      exact ⟨combatant, hfights, Or.inl rfl⟩
    · split at hfirst
      · rw [← (Prod.mk.inj (Result.ok.inj hfirst)).2] at hfights
        exact ⟨combatant, hfights, Or.inl rfl⟩
      · next head _ =>
        obtain ⟨_, -, hmodified⟩ := Result.bind_eq_ok_iff.mp hfirst
        rw [← (Prod.mk.inj (Result.ok.inj hmodified)).2] at hfights
        change (published.combatants.modify head _).get? id = some combatant at hfights
        rw [IndexMap.get?_modify] at hfights
        split_ifs at hfights
        · obtain ⟨entered, hentered, rfl⟩ := Option.map_eq_some_iff.mp hfights
          exact ⟨entered, hentered, Or.inr rfl⟩
        · exact ⟨combatant, hfights, Or.inl rfl⟩
  obtain ⟨entered, hentered, hcase⟩ := hturn
  exact ⟨_, prepared.granted, entered, rfl, rfl, henters hentered, hcase⟩

/-! ### Chains of encounters -/

/-- One crossing under a rule that suspends effects: a combatant released in one round travels, and
what its record becomes enters another encounter in another round. -/
def Crosses (definition : CombatDefinition) (before : Combatant) (left : ℕ) (after : Combatant)
    (entered : ℕ) : Prop :=
  ∃ (world next later : World) (combat : CombatState) (summary : EncounterSummary)
    (id traveller : EntityId) (granted : Finset String) (record : CreatureState) (initiative : ℤ),
    (Reachable world ∧ world.combat = some combat ∧ combat.round = left ∧
      combat.lifecycle.effectsOnExit = .suspend ∧
      (before.entered = true ∨ combat.lifecycle.respawns = false) ∧
      world.combatants.get? id = some before) ∧
    endEncounter world = .ok (summary, next) ∧
    Relation.ReflTransGen Travels (next, id) (later, traveller) ∧
    later.creatures.get? traveller = some record ∧
    checkEntry later definition granted traveller record = .ok () ∧
    enterCombatant definition record entered initiative = .ok after

/-- No suspended effect saturates its round at the entry. -/
def Unsaturated (before : Combatant) (left entered : ℕ) : Prop :=
  ∀ item ∈ before.attached, left < item.expiresRound →
    entered + (item.expiresRound - left) ≤ u32Max

/-- A combatant that an encounter left as it was up to a round, its lapsed effects apart. -/
def SatOut (held released : Combatant) (round : ℕ) : Prop :=
  Preserved held released ∧ (released.expire round).attached = (held.expire round).attached

/-- Crossings in a row, each released from the encounter the one before entered: the definitions
entered, the rounds spent in the encounters between, and the last entry. -/
inductive Chain (first : Combatant) (left : ℕ) :
    List CombatDefinition → ℕ → Combatant → ℕ → Prop
  | once {definition : CombatDefinition} {after : Combatant} {entered : ℕ}
      (crosses : Crosses definition first left after entered)
      (unsaturated : Unsaturated first left entered) : Chain first left [definition] 0 after entered
  | again {definitions : List CombatDefinition} {definition : CombatDefinition}
      {spent entered round later : ℕ} {held released after : Combatant}
      (chain : Chain first left definitions spent held entered)
      (satOut : SatOut held released round) (passes : entered ≤ round)
      (crosses : Crosses definition released round after later)
      (unsaturated : Unsaturated released round later) :
      Chain first left (definition :: definitions) (spent + (round - entered)) after later

def outlasting (definitions : List CombatDefinition) (left spent entered : ℕ)
    (attached : List AttachedEffect) : List AttachedEffect :=
  (attached.filter fun item ↦ decide (left + spent < item.expiresRound) &&
    definitions.all fun definition ↦ definition.knows item.effect).map fun item ↦
      ⟨item.effect, entered + (item.expiresRound - (left + spent))⟩

theorem Crosses.resumes {definition : CombatDefinition} {before after : Combatant}
    {left entered : ℕ} (hcrosses : Crosses definition before left after entered) :
    Preserved before after ∧
      after.attached = resumedAt definition left entered before.attached := by
  obtain ⟨world, next, later, combat, summary, id, traveller, granted, record, initiative,
    ⟨hreachable, hcombat, rfl, hsuspends, hdue, hget⟩, hend, hway, hrecord, -, henter⟩ := hcrosses
  obtain ⟨left, hexit, henters⟩ :=
    @enterCombatant_exitRecord before combat.definition.ruleset combat.round _ hdue
  have hleft := endEncounter_record hcombat hget hend hexit
  have harrived := (record_of_travels hway (.endEncounter hreachable hend) hleft).2
  rw [hrecord, Option.some.injEq] at harrived
  obtain ⟨found, hfound, ⟨hpreserved, -⟩, hattached, -⟩ := henters definition entered initiative
  rw [← harrived, henter, Result.ok.injEq] at hfound
  rw [hfound]
  exact ⟨hpreserved, hattached hsuspends⟩

/-- Without saturation an effect resumes with the rounds it had left. -/
theorem resumedAt_eq_outlasting {definition : CombatDefinition} {before : Combatant}
    {left entered : ℕ} (hunsaturated : Unsaturated before left entered) :
    resumedAt definition left entered before.attached =
      outlasting [definition] left 0 entered before.attached := by
  unfold resumedAt outlasting
  simp only [Nat.add_zero, List.all_cons, List.all_nil, Bool.and_true]
  refine List.map_congr_left fun item hitem ↦ ?_
  obtain ⟨hmem, hkept⟩ := List.mem_filter.mp hitem
  rw [Bool.and_eq_true, decide_eq_true_eq] at hkept
  rw [saturatingAdd, Nat.min_eq_right (hunsaturated item hmem hkept.1)]

/-- What lapsed by the round of an exit does not resume. -/
theorem outlasting_expire (definition : CombatDefinition) (left entered : ℕ)
    (combatant : Combatant) :
    outlasting [definition] left 0 entered (combatant.expire left).attached =
      outlasting [definition] left 0 entered combatant.attached := by
  unfold outlasting Combatant.expire
  rw [List.filter_filter]
  refine congrArg (List.map _) (List.filter_congr fun item _ ↦ ?_)
  by_cases hlasts : left < item.expiresRound
  · simp [hlasts]
  · simp [hlasts]

theorem outlasting_outlasting (definition : CombatDefinition) (definitions : List CombatDefinition)
    {left spent entered round : ℕ} (later : ℕ) (attached : List AttachedEffect)
    (hpasses : entered ≤ round) :
    outlasting [definition] round 0 later (outlasting definitions left spent entered attached) =
      outlasting (definition :: definitions) left (spent + (round - entered)) later attached := by
  unfold outlasting
  rw [List.filter_map, List.map_map, List.filter_filter]
  have hfilter : (attached.filter fun item ↦
      ((fun item : AttachedEffect ↦ decide (round + 0 < item.expiresRound) &&
        [definition].all fun definition ↦ definition.knows item.effect) ∘ fun item ↦
          ⟨item.effect, entered + (item.expiresRound - (left + spent))⟩) item &&
        (decide (left + spent < item.expiresRound) &&
          definitions.all fun definition ↦ definition.knows item.effect)) =
      attached.filter fun item ↦
        decide (left + (spent + (round - entered)) < item.expiresRound) &&
          (definition :: definitions).all fun definition ↦ definition.knows item.effect := by
    refine List.filter_congr fun item _ ↦ ?_
    have hround : (round + 0 < entered + (item.expiresRound - (left + spent)) ∧
        left + spent < item.expiresRound) ↔
          left + (spent + (round - entered)) < item.expiresRound := by omega
    simp only [Function.comp_apply, List.all_cons, List.all_nil, Bool.and_true]
    rw [← decide_eq_decide.mpr hround, Bool.decide_and]
    simp only [Bool.and_assoc, Bool.and_left_comm]
  rw [hfilter]
  refine List.map_congr_left fun item hitem ↦ ?_
  have hlasts := (List.mem_filter.mp hitem).2
  rw [Bool.and_eq_true, decide_eq_true_eq] at hlasts
  simp only [Function.comp_apply, AttachedEffect.mk.injEq, true_and]
  omega

/-- A creature that sat out the encounters of a chain is as it was released first: of its effects
those that every definition knows and that outlast the rounds it spent inside. -/
theorem Chain.resumes {first after : Combatant} {left spent entered : ℕ}
    {definitions : List CombatDefinition}
    (hchain : Chain first left definitions spent after entered) : Preserved first after ∧
      after.attached = outlasting definitions left spent entered first.attached := by
  induction hchain with
  | once crosses unsaturated =>
    obtain ⟨hpreserved, hattached⟩ := crosses.resumes
    exact ⟨hpreserved, hattached.trans (resumedAt_eq_outlasting unsaturated)⟩
  | @again definitions definition spent entered round later held released after _ satOut passes
      crosses unsaturated ih =>
    obtain ⟨hfirst, hheld⟩ := ih
    obtain ⟨hsat, hlasting⟩ := satOut
    obtain ⟨hlast, hattached⟩ := crosses.resumes
    refine ⟨(hfirst.trans hsat).trans hlast, ?_⟩
    calc after.attached
        = resumedAt definition round later released.attached := hattached
      _ = outlasting [definition] round 0 later released.attached :=
          resumedAt_eq_outlasting unsaturated
      _ = outlasting [definition] round 0 later held.attached := by
          rw [← outlasting_expire, hlasting, outlasting_expire]
      _ = outlasting (definition :: definitions) left (spent + (round - entered)) later
            first.attached := by
          rw [hheld, outlasting_outlasting definition definitions later _ passes]

/-! ### Leaving and entering again -/

/-- Leaving and entering again preserves a creature. Assumes: a reachable world with an encounter
that does not respawn, or a combatant that entered from a record. The release leaves a record, and
it arrives unchanged wherever the creature travels. What any encounter that accepts it makes of it,
in any round, is the combatant that was released: with the effects that were unexpired then and that
the definition knows when the rule suspends them, with none otherwise. A start publishes it so, up
to the refresh of the first turn. Over a chain of encounters that leave the creature alone the
effects that outlast the rounds spent inside remain, with the rest unchanged. -/
theorem leave_and_reenter :
    (∀ {world next : World} {combat : CombatState} {summary : EncounterSummary} {id : EntityId}
      {before : Combatant}, Reachable world → world.combat = some combat →
      world.combatants.get? id = some before →
      (before.entered = true ∨ combat.lifecycle.respawns = false) →
      endEncounter world = .ok (summary, next) → ∃ record, next.creatures.get? id = some record ∧
        ∀ {later : World} {traveller : EntityId},
          Relation.ReflTransGen Travels (next, id) (later, traveller) →
          later.creatures.get? traveller = some record ∧
          (∀ (definition : CombatDefinition) (granted : Finset String) (round : ℕ) (initiative : ℤ),
            checkEntry later definition granted traveller record = .ok () →
            ∃ after, enterCombatant definition record round initiative = .ok after ∧
              Preserved before after ∧ (combat.lifecycle.effectsOnExit = .suspend →
                after.attached = resumedAt definition combat.round round before.attached) ∧
              (combat.lifecycle.effectsOnExit ≠ .suspend → after.attached = [])) ∧
          ∀ {spec : EncounterSpec} {mode : EncounterMode} {facts : StartFacts} {started : World}
            {combatant : Combatant},
            startEncounterInModeTracked later spec mode = .ok (facts, started) →
            started.combatants.get? traveller = some combatant →
            ∃ joined granted after, started.combat = some joined ∧ joined.round = 0 ∧
              EntersFrom later joined.definition granted traveller record after ∧
              (combatant = after ∨ combatant = after.refresh .turnStart)) ∧
    ∀ {first after : Combatant} {left spent entered : ℕ} {definitions : List CombatDefinition},
      Chain first left definitions spent after entered → Preserved first after ∧
        after.attached = outlasting definitions left spent entered first.attached := by
  refine ⟨?_, fun hchain ↦ hchain.resumes⟩
  intro world next combat summary id before hreachable hcombat hget hdue hend
  obtain ⟨record, hexit, henters⟩ :=
    @enterCombatant_exitRecord before combat.definition.ruleset combat.round _ hdue
  have hleft := endEncounter_record hcombat hget hend hexit
  refine ⟨record, hleft, fun {later traveller} hway ↦ ?_⟩
  obtain ⟨harrived, hrecord⟩ := record_of_travels hway (.endEncounter hreachable hend) hleft
  refine ⟨hrecord, fun definition _ round initiative _ ↦ ?_, fun hstart hfights ↦ ?_⟩
  · obtain ⟨after, henter, ⟨hpreserved, -⟩, hattached⟩ := henters definition round initiative
    exact ⟨after, henter, hpreserved, hattached⟩
  · exact startEncounter_enters harrived hstart hrecord hfights

/-- A duel, its release, and the duel that enters from its records. -/
def rematch : Result CombatError (World × (EncounterSummary × World) × World) := do
  let started ← duelStart
  let released ← endEncounter started.2
  let again ← startEncounterInModeTracked released.2 duelSpec .turnBased
  pure (started.2, released, again.2)

/-- The records of the duel are saved and loaded, and its duelists fight again. -/
def rematched (worlds : World × (EncounterSummary × World) × World) : Bool :=
  loadCreatures worlds.2.1.2 (serializeCreatures worlds.2.1.2) = some worlds.2.1.2.creatures &&
    worlds.1.combat.any (fun combat ↦ !combat.lifecycle.respawns) &&
    worlds.1.combatants.contains ⟨0, 1⟩ && worlds.2.2.combatants.contains ⟨0, 1⟩

/-- A duelist that was released, saved and loaded fights the next duel as it fought the first. -/
theorem rematch_enters : ∃ (world started : World) (before after combatant : Combatant),
    Reachable world ∧ world.combatants.get? ⟨0, 1⟩ = some before ∧
    started.combatants.get? ⟨0, 1⟩ = some combatant ∧ Preserved before after ∧
    (combatant = after ∨ combatant = after.refresh .turnStart) := by
  obtain ⟨worlds, hrematch, hworlds⟩ := Result.isOkAnd_iff.mp
    (show rematch.isOkAnd rematched = true by decide +kernel)
  simp only [rematch, bind_ok_iff, pure_ok_iff] at hrematch
  obtain ⟨⟨facts, world⟩, hduel, ⟨summary, next⟩, hend, ⟨laterFacts, started⟩, hstart, rfl⟩ :=
    hrematch
  simp only [rematched, Bool.and_eq_true, decide_eq_true_eq, Option.any_eq_true,
    Bool.not_eq_true', IndexMap.contains, Option.isSome_iff_exists] at hworlds
  obtain ⟨⟨⟨hload, combat, hcombat, hstays⟩, before, hget⟩, combatant, hfights⟩ := hworlds
  have hreachable : Reachable world := .start (.new 0) hduel trivial
  have hreload : Travels (next, ⟨0, 1⟩) (next, ⟨0, 1⟩) := .reloads ⟨_, hload, rfl⟩
  obtain ⟨record, -, hway⟩ :=
    leave_and_reenter.1 hreachable hcombat hget (Or.inr hstays) hend
  obtain ⟨-, henters, hstarts⟩ := hway (.single hreload)
  obtain ⟨joined, granted, after, -, -, ⟨haccepted, initiative, henter⟩, hcase⟩ :=
    hstarts hstart hfights
  obtain ⟨found, hfound, hpreserved, -⟩ :=
    henters joined.definition granted 0 initiative haccepted
  rw [henter, Result.ok.injEq] at hfound
  exact ⟨world, started, before, after, combatant, hreachable, hget, hfights,
    hfound ▸ hpreserved, hcase⟩

end Crpg.Sim
