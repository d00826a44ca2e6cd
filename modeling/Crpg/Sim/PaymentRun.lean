import Crpg.Sim.Purses

/-!
# Paying in every world

A world is coffered when its encounter asks for positive amounts and its combatants hold the pools
of the definition, in the order of the templates and under distinct identities. The loader checks
this, a start of a validated encounter establishes it, and every operation keeps it. So every action
that passes validation is paid, of a turn-based use and in the middle of a tick alike.
-/

set_option autoImplicit false

namespace Crpg.Sim

open Crpg.Core Crpg.Lib Crpg.Rules Crpg.Data
open Result (bind_eq_ok_iff bind_ok_iff expect_eq_ok_iff mapM_eq_ok_iff pure_ok_iff)

/-! ### Coffered worlds -/

structure CombatDefinition.Priced (definition : CombatDefinition) : Prop where
  pools : (definition.pools.map PoolTemplate.id).Nodup
  costs : ∀ entry ∈ definition.abilities, ∀ cost ∈ entry.costs, 0 < cost.2

structure Coffered (world : World) : Prop where
  idle : world.combat = none → world.combatants.keys = []
  priced : ∀ combat, world.combat = some combat → combat.definition.Priced
  pools : ∀ combat, world.combat = some combat → ∀ id combatant,
    world.combatants.get? id = some combatant →
    combatant.pools.map ResourcePool.id = combat.definition.pools.map PoolTemplate.id

section Coffers

variable {world next : World}

theorem Coffered.congr (hcoffered : Coffered world) (hcombat : next.combat = world.combat)
    (hcombatants : next.combatants = world.combatants) : Coffered next := by
  refine ⟨?_, ?_, ?_⟩
  · rw [hcombat, hcombatants]
    exact hcoffered.idle
  · rw [hcombat]
    exact hcoffered.priced
  · rw [hcombat, hcombatants]
    exact hcoffered.pools

theorem Equipped.coffered (hequipped : Equipped world next) (hcoffered : Coffered world) :
    Coffered next := by
  have hbefore : ∀ combat, next.combat = some combat → ∃ before, world.combat = some before ∧
      before.definition = combat.definition := by
    intro combat hcombat
    have hdefinition := hequipped.definition
    rw [hcombat, Option.map_some] at hdefinition
    obtain ⟨before, hbefore, heq⟩ := Option.map_eq_some_iff.mp hdefinition.symm
    exact ⟨before, hbefore, heq⟩
  refine ⟨fun hnone ↦ ?_, fun combat hcombat ↦ ?_, fun combat hcombat id combatant hget ↦ ?_⟩
  · have hdefinition := hequipped.definition
    rw [hnone, Option.map_none] at hdefinition
    rw [hequipped.combatants.keys_eq]
    exact hcoffered.idle (Option.map_eq_none_iff.mp hdefinition.symm)
  · obtain ⟨before, hbefore, heq⟩ := hbefore combat hcombat
    exact heq ▸ hcoffered.priced before hbefore
  · obtain ⟨before, hbefore, heq⟩ := hbefore combat hcombat
    obtain ⟨old, hold, hsame⟩ := hequipped.combatants.get?_eq_some hget
    rw [← heq, show combatant.pools.map ResourcePool.id = old.pools.map ResourcePool.id from hsame]
    exact hcoffered.pools before hbefore id old hold

theorem coffered_of_released (hcombat : next.combat = none) (hkeys : next.combatants.keys = []) :
    Coffered next := by
  refine ⟨fun _ ↦ hkeys, fun combat hsome ↦ ?_, fun combat hsome ↦ ?_⟩
  · exact nomatch hcombat.symm.trans hsome
  · exact nomatch hcombat.symm.trans hsome

theorem coffered_strip (hcoffered : Coffered world) (entities : GenerationalArena EntityMeta)
    (id : EntityId) : Coffered (strip world entities id) := by
  refine ⟨fun hnone ↦ ?_, hcoffered.priced, fun combat hcombat other combatant hget ↦ ?_⟩
  · show (world.combatants.shiftRemove id).keys = []
    rw [IndexMap.keys_shiftRemove, hcoffered.idle hnone]
    rfl
  · change (world.combatants.shiftRemove id).get? other = some combatant at hget
    rw [IndexMap.get?_shiftRemove] at hget
    split_ifs at hget
    exact hcoffered.pools combat hcombat other combatant hget

variable {id : EntityId}

theorem coffered_despawnTracked (hcoffered : Coffered world) {facts : Bool × TransitionFacts}
    (hdespawn : despawnTracked world id = .ok (facts, next)) : Coffered next := by
  unfold despawnTracked at hdespawn
  split at hdespawn
  · rw [← (Prod.mk.inj (Result.ok.inj hdespawn)).2]
    exact hcoffered
  · next entities _ =>
    obtain ⟨⟨_, settled⟩, hsettle, hnext⟩ := bind_eq_ok_iff.mp hdespawn
    rw [← (Prod.mk.inj (Result.ok.inj hnext)).2]
    have hsettled : Coffered settled := by
      unfold settleDespawn at hsettle
      split_ifs at hsettle with hempty
      · rw [← (Prod.mk.inj (Result.ok.inj hsettle)).2]
        exact coffered_of_released rfl (IndexMap.isEmpty_iff.mp hempty)
      · have hpassed := (advanceTracked_transits False.elim hsettle).passed
        exact hpassed.equipped.coffered (coffered_strip hcoffered _ id)
      · rw [← (Prod.mk.inj (Result.ok.inj hsettle)).2]
        exact coffered_strip hcoffered _ id
    exact hsettled.congr rfl rfl

theorem coffered_spawn (hcoffered : Coffered world) {data : EntityMeta}
    (hspawn : world.spawn data = some (id, next)) : Coffered next := by
  obtain ⟨_, _, rfl⟩ := spawn_frame hspawn
  exact hcoffered.congr rfl rfl

theorem coffered_registerCreature (hcoffered : Coffered world) {spec : CreatureSpec}
    (hregister : registerCreature world spec = .ok (id, next)) : Coffered next := by
  obtain ⟨spawned, record, hspawn, rfl⟩ := registerCreature_frame hregister
  exact (coffered_spawn hcoffered hspawn).congr rfl rfl

theorem requestMode_equipped {mode : EncounterMode} (hrequest : requestMode world mode = .ok next) :
    Equipped world next := by
  have hpassed : Passed False world next := requestMode_passed hrequest
  exact hpassed.equipped

/-- A release leaves nobody with a purse. -/
theorem coffered_of_endEncounter {summary : EncounterSummary}
    (hend : endEncounter world = .ok (summary, next)) : Coffered next := by
  simp only [endEncounter, bind_ok_iff, pure_ok_iff, Prod.mk.injEq] at hend
  obtain ⟨combat, -, -, rfl⟩ := hend
  refine coffered_of_released rfl ?_
  rw [keys_foldl_release, List.filter_eq_nil_iff]
  intro key hkey
  simpa [IndexMap.keys] using hkey

/-! ### Ticks -/

/-- The worlds in which a tick runs orders: the world after the clock advanced, and the worlds after
the orders that ran before. -/
inductive Midtick (world : World) : World → Prop
  | staged {facts : TransitionFacts} {staged : World}
      (hstage : clockStage world.advanceTick = .ok (facts, staged)) : Midtick world staged
  | executed {elapsed roundTicks : ℕ} {middle next : World} {actor : EntityId}
      {order : StandingOrder} {event : TickEvent} (hbefore : Midtick world middle)
      (hexecute : executeOrder elapsed roundTicks middle actor order = .ok (event, next)) :
      Midtick world next

theorem Midtick.equipped {middle : World} (hmiddle : Midtick world middle) :
    Equipped world middle := by
  induction hmiddle with
  | staged hstage =>
    have hticked : Equipped world world.advanceTick := Equipped.of_eq rfl rfl
    exact hticked.trans (clockStage_transits False.elim hstage).passed.equipped
  | executed _ hexecute ih => exact ih.trans (executeOrder_equipped hexecute)

theorem midtick_of_tickTracked {facts : TickFacts} (htick : tickTracked world = .ok (facts, next)) :
    Midtick world next := by
  obtain ⟨⟨before, staged⟩, hclock, hexecute⟩ := bind_eq_ok_iff.mp htick
  refine (executionStage_induct (motive := fun _ state ↦ Midtick world state) (.staged hclock) ?_
    hexecute).1
  intro _ _ _ state after actor order event hstate _ _ hafter
  exact hstate.executed hafter

end Coffers

/-! ### Starts -/

section Start

variable {world next : World} {spec : EncounterSpec} {mode : EncounterMode} {prepared : Prepared}

variable {templates : List PoolTemplate} {primary : PoolTemplate}

theorem checkAmounts_positive {costs : List (Ulid × ℕ)}
    (hcheck : checkAmounts templates primary costs = .ok ()) {cost : Ulid × ℕ}
    (hcost : cost ∈ costs) : 0 < cost.2 := by
  simp only [checkAmounts, bind_ok_iff, Result.forM_eq_ok_iff, Result.failIf_eq_ok_iff] at hcheck
  obtain ⟨_, -, hamounts⟩ := hcheck
  obtain ⟨_, -, hamount⟩ := hamounts cost hcost
  exact Nat.pos_of_ne_zero fun hzero ↦ hamount (.inl hzero)

theorem validateAbility_positive {isUsable : String → Bool} {id : Ulid}
    {validated : ValidatedAbility}
    (hvalidate : validateAbility spec isUsable templates primary id = .ok validated)
    {cost : Ulid × ℕ} (hcost : cost ∈ validated.costs) : 0 < cost.2 := by
  simp only [validateAbility, bind_ok_iff, Result.pure_eq] at hvalidate
  obtain ⟨_, -, _, -, _, -, _, -, _, -, costs, -, _, hamounts, _, -, _, -, _, -, hrest⟩ := hvalidate
  have hcosts : validated.costs = costs := by
    split at hrest
    · obtain ⟨_, -, hrest⟩ := bind_eq_ok_iff.mp hrest
      split at hrest
      · obtain ⟨_, -, hrest⟩ := bind_eq_ok_iff.mp hrest
        rw [← Result.ok.inj hrest]
      · rw [← Result.ok.inj hrest]
    · split at hrest
      · obtain ⟨_, -, hrest⟩ := bind_eq_ok_iff.mp hrest
        rw [← Result.ok.inj hrest]
      · rw [← Result.ok.inj hrest]
  rw [hcosts] at hcost
  exact checkAmounts_positive hamounts hcost

theorem ids_of_readTemplates {ruleset : Ruleset} (hread : readTemplates ruleset = .ok templates) :
    templates.map PoolTemplate.id = ruleset.pools.map ActionPoolTemplate.id := by
  have hpairs := mapM_eq_ok_iff.mp hread
  clear hread
  generalize ruleset.pools = pools at hpairs
  induction hpairs with
  | nil => rfl
  | cons hone _ ih =>
    obtain ⟨_, -, htemplate⟩ := bind_eq_ok_iff.mp hone
    rw [List.map_cons, List.map_cons, ih, ← Result.ok.inj htemplate]

/-- A prepared definition is priced, and its primary pool is the first template. Assumes: a ruleset
with distinct pools. -/
theorem priced_of_prepare (hpools : (spec.ruleset.pools.map ActionPoolTemplate.id).Nodup)
    (hprepare : prepare world spec mode = .ok prepared) :
    prepared.definition.Priced ∧ ∃ primary rest,
      prepared.definition.pools = primary :: rest ∧ prepared.definition.poolId = primary.id := by
  simp only [prepare, bind_ok_iff, pure_ok_iff, expect_eq_ok_iff] at hprepare
  obtain ⟨_, -, _, -, _, -, _, -, _, -, _, -, _, -, _, -, templates, htemplates, primary, hprimary,
    validated, hvalidated, _, -, _, -, abilities, habilities, _, -, rfl⟩ := hprepare
  refine ⟨⟨?_, fun entry hentry cost hcost ↦ ?_⟩, ?_⟩
  · rw [ids_of_readTemplates htemplates]
    exact hpools
  · have hmem := ((List.perm_insertionSort _ abilities).mem_iff).mp hentry
    obtain ⟨source, hsource, hconvert⟩ := exists_of_forall₂ (mapM_eq_ok_iff.mp habilities)
      hmem
    obtain ⟨id, -, hvalid⟩ := exists_of_forall₂ (mapM_eq_ok_iff.mp hvalidated) hsource
    obtain ⟨_, -, hentryEq⟩ := bind_eq_ok_iff.mp hconvert
    rw [← Result.ok.inj hentryEq] at hcost
    exact validateAbility_positive hvalid hcost
  · cases templates with
    | nil => cases hprimary
    | cons first rest =>
      rw [← Option.some.inj hprimary]
      exact ⟨first, rest, rfl, rfl⟩

theorem ids_of_poolsAgree {pools : List ResourcePool} (hagree : poolsAgree pools templates = true) :
    pools.map ResourcePool.id = templates.map PoolTemplate.id := by
  unfold poolsAgree at hagree
  rw [Bool.and_eq_true, decide_eq_true_eq] at hagree
  obtain ⟨hlength, hpairs⟩ := hagree
  induction pools generalizing templates with
  | nil =>
    rw [List.length_nil] at hlength
    rw [List.length_eq_zero_iff.mp hlength.symm]
    rfl
  | cons pool rest ih =>
    cases templates with
    | nil => exact nomatch hlength
    | cons template others =>
      rw [List.zip_cons_cons, List.all_cons, Bool.and_eq_true] at hpairs
      rw [List.length_cons, List.length_cons, Nat.succ.injEq] at hlength
      rw [List.map_cons, List.map_cons, ih hlength hpairs.2]
      simp only [Bool.and_eq_true, decide_eq_true_eq] at hpairs
      rw [hpairs.1.1.1]

theorem record_of_sourceOf {member : Pending} {entry : Pending × Source}
    (hsource : sourceOf world prepared member = .ok entry) {entity : EntityId}
    (henter : entry.2 = .enter entity) {record : CreatureState}
    (hrecord : world.creatures.get? entity = some record) :
    record.pools.map ResourcePool.id = prepared.definition.pools.map PoolTemplate.id := by
  unfold sourceOf at hsource
  split_ifs at hsource
  · rw [← Result.ok.inj hsource] at henter
    exact nomatch henter
  · split at hsource
    · rw [← Result.ok.inj hsource] at henter
      exact nomatch henter
    · next other found hfind =>
      split_ifs at hsource
      · rw [← Result.ok.inj hsource] at henter
        exact nomatch henter
      · obtain ⟨_, hcheck, hentry⟩ := bind_eq_ok_iff.mp hsource
        rw [← Result.ok.inj hentry] at henter
        have hget := IndexMap.mem_entries_iff.mp (List.mem_of_find?_eq_some hfind)
        rw [Source.enter.inj henter] at hget
        rw [← Option.some.inj (hget.symm.trans hrecord)]
        simp only [checkEntry, bind_ok_iff, Result.failIf_eq_ok_iff] at hcheck
        obtain ⟨_, hagrees, -⟩ := hcheck
        rw [not_or, not_or, Bool.not_eq_false] at hagrees
        exact ids_of_poolsAgree hagrees.2.2

theorem fullPool_id {id : Ulid} {max : ℕ} {refresh : RefreshTrigger} {pool : ResourcePool}
    (hpool : fullPool id max refresh = .ok pool) : pool.id = id := by
  unfold fullPool ResourcePool.new ResourcePool.withRefill at hpool
  split_ifs at hpool
  · cases hpool
  · cases hpool
  · rw [← Result.ok.inj hpool]

theorem freshCombatant_ids {definition : CombatDefinition} {member : Pending}
    {combatant : Combatant} {rest : List PoolTemplate}
    (hpools : definition.pools = primary :: rest) (hprimary : definition.poolId = primary.id)
    (hfresh : freshCombatant definition member = .ok combatant) :
    combatant.pools.map ResourcePool.id = definition.pools.map PoolTemplate.id := by
  simp only [freshCombatant, bind_ok_iff, pure_ok_iff] at hfresh
  obtain ⟨extraPools, hextra, actionPool, haction, rfl⟩ := hfresh
  rw [hpools, List.tail_cons] at hextra
  have hpairs := mapM_eq_ok_iff.mp hextra
  have hids : extraPools.map ResourcePool.id = rest.map PoolTemplate.id := by
    clear hextra hpools
    induction hpairs with
    | nil => rfl
    | cons hone _ ih => rw [List.map_cons, List.map_cons, ih, fullPool_id hone]
  rw [hpools, List.map_cons, ← hprimary, ← fullPool_id haction, ← hids]
  rfl

theorem pools_of_publishMember {definition : CombatDefinition} {entry : Pending × Source}
    {rest : List PoolTemplate} (hpools : definition.pools = primary :: rest)
    (hprimary : definition.poolId = primary.id)
    (hrecords : ∀ entity record, entry.2 = .enter entity →
      world.creatures.get? entity = some record →
      record.pools.map ResourcePool.id = definition.pools.map PoolTemplate.id)
    (hpublish : publishMember mode definition world entry = .ok next) {id : EntityId}
    {combatant : Combatant} (hget : next.combatants.get? id = some combatant) :
    world.combatants.get? id = some combatant ∨
      combatant.pools.map ResourcePool.id = definition.pools.map PoolTemplate.id := by
  have hpublished : ∀ {state : World} {other : EntityId} {joined : Combatant},
      state.combatants = world.combatants →
      (publish mode state other joined).combatants.get? id = some combatant →
      joined.pools.map ResourcePool.id = definition.pools.map PoolTemplate.id →
      world.combatants.get? id = some combatant ∨
        combatant.pools.map ResourcePool.id = definition.pools.map PoolTemplate.id := by
    intro state other joined hstate hfound hjoined
    change (state.combatants.insert other joined).get? id = some combatant at hfound
    rw [IndexMap.get?_insert] at hfound
    split_ifs at hfound
    · right
      rw [← Option.some.inj hfound]
      exact hjoined
    · left
      rw [← hstate]
      exact hfound
  unfold publishMember at hpublish
  split at hpublish
  · rw [← Result.ok.inj hpublish] at hget
    exact .inl hget
  · next entity hentry =>
    simp only [bind_ok_iff, pure_ok_iff, expect_eq_ok_iff] at hpublish
    obtain ⟨record, hrecord, entered, henter, rfl⟩ := hpublish
    refine hpublished ?_ hget ?_
    · rfl
    · have hids := hrecords entity record hentry hrecord
      unfold enterCombatant at henter
      split at henter
      · exact nomatch henter
      · next actionPool extraPools hrecordPools =>
        rw [← hids, hrecordPools, ← Result.ok.inj henter]
        rfl
  · simp only [bind_ok_iff, pure_ok_iff, expect_eq_ok_iff] at hpublish
    obtain ⟨⟨other, spawned⟩, hspawn, joined, hfresh, rfl⟩ := hpublish
    obtain ⟨_, _, rfl⟩ := spawn_frame hspawn
    refine hpublished ?_ hget (freshCombatant_ids hpools hprimary hfresh)
    rfl

theorem coffered_of_start {facts : StartFacts}
    (hpools : (spec.ruleset.pools.map ActionPoolTemplate.id).Nodup) (hcoffered : Coffered world)
    (hstart : startEncounterInModeTracked world spec mode = .ok (facts, next)) : Coffered next := by
  have hnone := (started_of_start hstart).idle
  simp only [startEncounterInModeTracked, bind_ok_iff, pure_ok_iff, Prod.mk.injEq] at hstart
  obtain ⟨prepared, hprepare, sources, hsources, _, -, ⟨rolledWorld, rolled⟩, hroll, published,
    hpublish, ⟨active, first⟩, hfirst, -, rfl⟩ := hstart
  obtain ⟨hpriced, primary, rest, htemplates, hprimary⟩ := priced_of_prepare hpools hprepare
  obtain ⟨rng, rfl⟩ := rollInitiative_frame hroll
  replace hpublish : Result.foldlM (publishMember mode prepared.definition)
    { world with rng := rng } rolled = .ok published := hpublish
  -- Everybody who joined holds the pools of the definition.
  have hjoined : ∀ id combatant, published.combatants.get? id = some combatant →
      combatant.pools.map ResourcePool.id = prepared.definition.pools.map PoolTemplate.id := by
    refine (Result.foldlM_preserves (motive := fun state : World ↦
      (∀ id record, state.creatures.get? id = some record →
        world.creatures.get? id = some record) ∧
      ∀ id combatant, state.combatants.get? id = some combatant →
        combatant.pools.map ResourcePool.id = prepared.definition.pools.map PoolTemplate.id)
      ?_ ?_ hpublish).2
    · intro entry hentry state after hstate hafter
      refine ⟨fun id record hget ↦
        hstate.1 id record ((published_of_publishMember hafter).records id record hget),
        fun id combatant hget ↦ ?_⟩
      refine (pools_of_publishMember htemplates hprimary (fun entity record henter hrecord ↦ ?_)
        hafter hget).elim (hstate.2 id combatant) fun hids ↦ hids
      obtain ⟨source, hsource, hkept, -⟩ := exists_of_forall₂ (rollInitiative_keyed hroll) hentry
      obtain ⟨member, -, hmember⟩ := exists_of_forall₂ (mapM_eq_ok_iff.mp hsources) hsource
      exact record_of_sourceOf hmember (hkept.symm.trans henter) (hstate.1 entity record hrecord)
    · refine ⟨fun _ _ hget ↦ hget, fun id combatant hget ↦ ?_⟩
      have hmem := IndexMap.mem_keys_iff.mpr ⟨combatant, hget⟩
      change id ∈ world.combatants.keys at hmem
      rw [hcoffered.idle hnone] at hmem
      exact absurd hmem List.not_mem_nil
  have hturn : SamePurses published.combatants first.combatants := by
    unfold firstTurn at hfirst
    split at hfirst
    · rw [← (Prod.mk.inj (Result.ok.inj hfirst)).2]
      exact IndexMap.Rel.refl Combatant.SamePools.refl _
    · split at hfirst
      · rw [← (Prod.mk.inj (Result.ok.inj hfirst)).2]
        exact IndexMap.Rel.refl Combatant.SamePools.refl _
      · obtain ⟨_, -, hnext⟩ := bind_eq_ok_iff.mp hfirst
        rw [← (Prod.mk.inj (Result.ok.inj hnext)).2]
        exact (Equipped.modify _ _ fun state ↦ state.samePools_refresh .turnStart).combatants
  refine ⟨fun h ↦ (by cases h), fun combat hcombat ↦ ?_, fun combat hcombat id combatant hget ↦ ?_⟩
  · rw [← Option.some.inj hcombat]
    exact hpriced
  · rw [← Option.some.inj hcombat]
    obtain ⟨before, hbefore, hsame⟩ := hturn.get?_eq_some hget
    exact (show combatant.pools.map ResourcePool.id = before.pools.map ResourcePool.id from
      hsame).trans (hjoined id before hbefore)

end Start

/-! ### Loaded worlds -/

def poolsCoherent (definition : CombatDefinition) : Bool :=
  decide (definition.pools.map PoolTemplate.id).Nodup &&
    (definition.pools.head?.any fun primary ↦ definition.poolId = primary.id &&
      definition.poolMax = primary.max && definition.poolRefresh = primary.refresh) &&
    definition.abilities.all fun ability ↦ !ability.costs.isEmpty && ability.costs.all fun cost ↦
      match definition.pools.find? fun template ↦ template.id = cost.1 with
      | none => false
      | some template => cost.2 ≠ 0 && cost.2 ≤ template.max

def purseCoherent (definition : CombatDefinition) (combatant : Combatant) : Bool :=
  combatant.actionPool.id = definition.poolId && combatant.actionPool.max = definition.poolMax &&
    combatant.actionPool.refreshTrigger = definition.poolRefresh &&
    poolsAgree combatant.extraPools definition.pools.tail

/-- The checks of the loader on pools: without an encounter nobody fights, and in one the definition
and every combatant pass theirs. -/
def cofferedWorld (world : World) : Bool :=
  match world.combat with
  | none => world.combatants.isEmpty
  | some combat => poolsCoherent combat.definition &&
      world.combatants.values.all (purseCoherent combat.definition)

variable {world : World}

theorem coffered_of_loaded (hloaded : cofferedWorld world = true) : Coffered world := by
  unfold cofferedWorld at hloaded
  split at hloaded
  · next hnone => exact coffered_of_released hnone (IndexMap.isEmpty_iff.mp hloaded)
  · next combat hcombat =>
    rw [Bool.and_eq_true, List.all_eq_true] at hloaded
    obtain ⟨hdefinition, hpurses⟩ := hloaded
    simp only [poolsCoherent, Bool.and_eq_true, decide_eq_true_eq, List.all_eq_true,
      Option.any_eq_true] at hdefinition
    obtain ⟨⟨hnodup, primary, hprimary, ⟨hid, -⟩, -⟩, hcosts⟩ := hdefinition
    have hsame : ∀ other, world.combat = some other → other = combat :=
      fun other hother ↦ Option.some.inj (hother.symm.trans hcombat)
    refine ⟨fun hnone ↦ ?_, fun other hother ↦ ?_, fun other hother id combatant hget ↦ ?_⟩
    · exact nomatch hnone.symm.trans hcombat
    · rw [hsame other hother]
      refine ⟨hnodup, fun entry hentry cost hcost ↦ ?_⟩
      have hcheck := (hcosts entry hentry).2 cost hcost
      split at hcheck
      · exact nomatch hcheck
      · rw [Bool.and_eq_true, decide_eq_true_eq] at hcheck
        exact Nat.pos_of_ne_zero hcheck.1
    · rw [hsame other hother]
      have hpurse := hpurses combatant (IndexMap.mem_values_iff.mpr ⟨id, hget⟩)
      simp only [purseCoherent, Bool.and_eq_true, decide_eq_true_eq] at hpurse
      obtain ⟨⟨⟨haction, -⟩, -⟩, hextra⟩ := hpurse
      cases hpools : combat.definition.pools with
      | nil =>
        rw [hpools] at hprimary
        exact nomatch hprimary
      | cons first rest =>
        rw [hpools] at hprimary hextra
        rw [← Option.some.inj hprimary] at hid
        rw [List.tail_cons] at hextra
        rw [List.map_cons, ← hid, ← haction, ← ids_of_poolsAgree hextra]
        rfl

/-! ### Runs -/

/-- One returning operation of the simulation. A start takes a ruleset with distinct pools, which
`crpg-data` checks. -/
inductive Operation (world next : World) : Prop
  | spawn (data : EntityMeta) (id : EntityId) (returned : world.spawn data = some (id, next))
  | despawn (id : EntityId) (facts : Bool × TransitionFacts)
      (returned : despawnTracked world id = .ok (facts, next))
  | register (spec : CreatureSpec) (id : EntityId)
      (returned : registerCreature world spec = .ok (id, next))
  | start (spec : EncounterSpec) (mode : EncounterMode) (facts : StartFacts)
      (pools : (spec.ruleset.pools.map ActionPoolTemplate.id).Nodup)
      (returned : startEncounterInModeTracked world spec mode = .ok (facts, next))
  | perform (action : CombatAction) (facts : Option ActionOutcome × TransitionFacts)
      (returned : performActionTracked world action = .ok (facts, next))
  | requestMode (mode : EncounterMode) (returned : requestMode world mode = .ok next)
  | tick (facts : TickFacts) (returned : tickTracked world = .ok (facts, next))
  | transferOut (destination entered : World) (entity moved : EntityId)
      (returned : transferEntity world destination entity = .ok (moved, next, entered))
  | transferIn (source left : World) (entity moved : EntityId)
      (returned : transferEntity source world entity = .ok (moved, left, next))
  | endEncounter (summary : EncounterSummary)
      (returned : endEncounter world = .ok (summary, next))

theorem Operation.coffered {next : World} (hstep : Operation world next)
    (hcoffered : Coffered world) : Coffered next := by
  cases hstep with
  | spawn data id returned => exact coffered_spawn hcoffered returned
  | despawn id facts returned => exact coffered_despawnTracked hcoffered returned
  | register spec id returned => exact coffered_registerCreature hcoffered returned
  | start spec mode facts pools returned => exact coffered_of_start pools hcoffered returned
  | perform action facts returned => exact (performActionTracked_equipped returned).coffered hcoffered
  | requestMode mode returned => exact (requestMode_equipped returned).coffered hcoffered
  | tick facts returned => exact (midtick_of_tickTracked returned).equipped.coffered hcoffered
  | transferOut destination entered entity moved returned =>
    obtain ⟨-, ⟨_, hremoved⟩, -⟩ := transferEntity_cases returned
    exact coffered_despawnTracked hcoffered hremoved
  | transferIn source left entity moved returned =>
    obtain ⟨-, -, _, spawned, hspawn, rfl⟩ := transferEntity_cases returned
    exact (coffered_spawn hcoffered hspawn).congr rfl rfl
  | endEncounter summary returned => exact coffered_of_endEncounter returned

/-! ### Payment -/

/-- A use is paid: at the moment its costs are spent every pool of the actor covers what is drawn
from it and loses exactly that, and a resolution does nothing else to a pool. -/
structure Pays (world : World) (actor : EntityId) (ability : Ulid) (target : EntityId)
    (combat : CombatState) (entry : AbilityDefinition) (combatant : Combatant) : Prop where
  running : world.combat = some combat
  listed : abilityEntry combat.definition ability = some entry
  fights : world.combatants.get? actor = some combatant
  covered : ∀ pool ∈ combatant.pools, drawn entry.costs pool.id ≤ pool.current
  spends : ∀ interners rng,
    spendCosts { world with interners := interners, rng := rng } actor entry.costs =
      .ok ({ world with interners := interners, rng := rng }.modifyCombatant actor
        fun _ ↦ combatant.charge (drawn entry.costs))
  resolved : ∀ outcome next, resolveUse world actor ability target = .ok (outcome, next) →
    (∃ after, next.combatants.get? actor = some after ∧
      after.pools = combatant.pools.map fun pool ↦ less pool (drawn entry.costs pool.id)) ∧
    ∀ other before, other ≠ actor → world.combatants.get? other = some before →
      ∃ after, next.combatants.get? other = some after ∧ after.pools = before.pools

theorem checked_of_validated {actor target : EntityId} {ability : Ulid}
    (hvalid : validateAction world (.useAbility actor ability target) = .ok ()) :
    ∃ combat entry combatant, world.combat = some combat ∧
      abilityEntry combat.definition ability = some entry ∧
      world.combatants.get? actor = some combatant ∧
      checkCosts combat.definition combatant entry.costs = .ok () := by
  simp only [validateAction, checkUse, checkPair, bind_ok_iff, pure_ok_iff, Result.okOr_eq_ok_iff,
    expect_eq_ok_iff] at hvalid
  obtain ⟨combat, hcombat, combatant, ⟨_, -, _, -, _, -, _, -, _, hactor, _, -, _, -, _, -, rfl⟩, _,
    -, entry, hentry, _, -, ⟨⟩, hcosts, -⟩ := hvalid
  exact ⟨combat, entry, _, hcombat, hentry, hactor, hcosts⟩

theorem pays_of_validated (hcoffered : Coffered world) {actor target : EntityId} {ability : Ulid}
    (hvalid : validateAction world (.useAbility actor ability target) = .ok ()) :
    ∃ combat entry combatant, Pays world actor ability target combat entry combatant := by
  obtain ⟨combat, entry, combatant, hcombat, hentry, hactor, hcheck⟩ := checked_of_validated hvalid
  have hpriced := hcoffered.priced combat hcombat
  have hnodup : (combatant.pools.map ResourcePool.id).Nodup := by
    rw [hcoffered.pools combat hcombat actor combatant hactor]
    exact hpriced.pools
  obtain ⟨hpaid, hcovered⟩ := affordable hnodup
    (hpriced.costs entry (List.mem_of_find?_eq_some hentry)) hcheck
  have hspends : ∀ interners rng,
      spendCosts { world with interners := interners, rng := rng } actor entry.costs =
        .ok ({ world with interners := interners, rng := rng }.modifyCombatant actor
          fun _ ↦ combatant.charge (drawn entry.costs)) := by
    intro interners rng
    unfold spendCosts
    rw [hactor]
    show (Result.foldlM spendCost combatant entry.costs).bind _ = _
    rw [hpaid]
    rfl
  refine ⟨combat, entry, combatant, hcombat, hentry, hactor, hcovered, hspends,
    fun outcome next hresolve ↦ ?_⟩
  obtain ⟨combat', entry', interners, rng, spent, hcombat', hentry', hspent, -, hpools⟩ :=
    resolveUse_pools hresolve
  rw [← Option.some.inj (hcombat.symm.trans hcombat')] at hentry'
  rw [← Option.some.inj (hentry.symm.trans hentry'), hspends interners rng] at hspent
  rw [← Result.ok.inj hspent] at hpools
  constructor
  · have hspentActor : ((world.combatants.modify actor
        fun _ ↦ combatant.charge (drawn entry.costs)).get? actor) =
          some (combatant.charge (drawn entry.costs)) := by
      rw [IndexMap.get?_modify_self, hactor, Option.map_some]
    obtain ⟨after, hafter, hsame⟩ := hpools.get?_eq_some' hspentActor
    exact ⟨after, hafter, hsame⟩
  · intro other before hne hbefore
    have hspentOther : ((world.combatants.modify actor
        fun _ ↦ combatant.charge (drawn entry.costs)).get? other) = some before := by
      rw [IndexMap.get?_modify, if_neg hne]
      exact hbefore
    obtain ⟨after, hafter, hsame⟩ := hpools.get?_eq_some' hspentOther
    exact ⟨after, hafter, hsame⟩

/-- Affordability implies payment. In every world reached by the operations of the simulation from
an empty or a loaded one, and in every world in which a tick runs orders, a use that passes
validation is paid as it was checked; and no pool holds more than its maximum. -/
theorem affordability_implies_payment :
    (∀ seed area, Coffered { World.new seed with area := area }) ∧
    (∀ world, cofferedWorld world = true → Coffered world) ∧
    (∀ start world, Coffered start → Relation.ReflTransGen Operation start world →
      Coffered world ∧
      ∀ middle, middle = world ∨ Midtick world middle → ∀ actor ability target,
        validateAction middle (.useAbility actor ability target) = .ok () →
        ∃ combat entry combatant, Pays middle actor ability target combat entry combatant) ∧
    (∀ (world : World) id combatant, world.combatants.get? id = some combatant →
      ∀ pool ∈ combatant.pools, 0 ≤ pool.current ∧ pool.current ≤ pool.max) := by
  refine ⟨fun seed area ↦ coffered_of_released rfl rfl, fun world hloaded ↦
    coffered_of_loaded hloaded, fun start world hstart hrun ↦ ?_, fun world id combatant _ pool _ ↦
    ⟨Nat.zero_le _, pool.current_le⟩⟩
  have hcoffered : Coffered world := by
    induction hrun with
    | refl => exact hstart
    | tail _ hstep ih => exact hstep.coffered ih
  refine ⟨hcoffered, fun middle hmiddle actor ability target hvalid ↦ ?_⟩
  rcases hmiddle with rfl | hmiddle
  · exact pays_of_validated hcoffered hvalid
  · exact pays_of_validated (hmiddle.equipped.coffered hcoffered) hvalid

end Crpg.Sim
