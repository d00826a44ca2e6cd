import Crpg.Sim.HistoryJournal
import Crpg.Sim.NaturalEnd

/-!
# The end of an encounter over a history

A step of a history appends the events its operation collected. `step_spec` says what each step
keeps and what it does to the encounter: it appends one end when it makes a running encounter
terminal and none otherwise, and it does nothing to a terminal one but release it. Over a whole
encounter this gives `natural_end_once`: the end is journaled at most once, by the operation that
makes the encounter terminal; from there on nothing is resolved, drawn or started until the release.
-/

set_option autoImplicit false

namespace Crpg.Sim

open Crpg.Core Crpg.Lib Crpg.Rules Crpg.Data
open Result (bind_eq_ok_iff bind_ok_iff mapErr_eq_ok_iff pure_ok_iff)
open List (filter_append filter_cons nil_append not_mem_nil)

/-! ### Runs of a history -/

inductive HistoryOp
  | spawn (data : EntityMeta)
  | registerCreature (spec : CreatureSpec)
  | despawn (entity : EntityId)
  | tick
  | startEncounterInMode (spec : EncounterSpec) (mode : EncounterMode)
  | performAction (action : CombatAction)
  | endEncounter
  | requestMode (mode : EncounterMode)
  | acknowledge (through : ℕ)
  | transferOut (destination : HistoryWorld) (entity : EntityId)
  | transferIn (source : HistoryWorld) (entity : EntityId)

namespace HistoryWorld

/-- The history after a call: the new one, the old one after an error, and none after a panic. -/
def after {ε α : Type} (history : HistoryWorld) (select : α → HistoryWorld) :
    Result ε α → Option HistoryWorld
  | .ok value => some (select value)
  | .err _ => some history
  | .panic => none

def step (history : HistoryWorld) : HistoryOp → Option HistoryWorld
  | .spawn data => history.after Prod.snd (history.spawn data)
  | .registerCreature spec => history.after Prod.snd (history.registerCreature spec)
  | .despawn entity => history.after Prod.snd (history.despawn entity)
  | .tick => history.after id history.tick
  | .startEncounterInMode spec mode => history.after id (history.startEncounterInMode spec mode)
  | .performAction action => history.after Prod.snd (history.performAction action)
  | .endEncounter => history.after Prod.snd history.endEncounter
  | .requestMode mode => history.after id (history.requestMode mode)
  | .acknowledge through => history.after id (history.acknowledge through)
  | .transferOut destination entity =>
    history.after (fun moved ↦ moved.2.1) (transferHistoryEntity history destination entity)
  | .transferIn source entity =>
    history.after (fun moved ↦ moved.2.2) (transferHistoryEntity source history entity)

/-- The events a step appended: those with a sequence the history had not issued before. -/
def appended (history next : HistoryWorld) : List HistoryEvent :=
  (next.pending.envelopes.filter fun envelope ↦ history.nextSeq ≤ envelope.seq).map
    HistoryEnvelope.payload

end HistoryWorld

/-- The operations that can end an encounter. -/
def HistoryOp.mayEnd : HistoryOp → Bool
  | .performAction _ => true
  | .tick => true
  | .despawn _ => true
  | _ => false

def HistoryOp.isRelease : HistoryOp → Bool
  | .endEncounter => true
  | _ => false

def HistoryEvent.isEnd : HistoryEvent → Bool
  | .encounterEnded _ _ => true
  | _ => false

def HistoryEvent.isPlay : HistoryEvent → Bool
  | .actionResolved _ _ _ _ _ => true
  | .turnStarted _ _ => true
  | .roundStarted _ => true
  | .modeChanged _ _ => true
  | _ => false

/-- One step of a run. -/
structure HistoryTransition where
  before : HistoryWorld
  op : HistoryOp
  after : HistoryWorld

def HistoryTransition.ends (transition : HistoryTransition) : List HistoryEvent :=
  (transition.before.appended transition.after).filter HistoryEvent.isEnd

/-- The runs inside one encounter: every step starts with the encounter in place; the last one may
release it. -/
inductive EncounterRun : HistoryWorld → List HistoryTransition → Prop
  | nil (history : HistoryWorld) : EncounterRun history []
  | cons {history next : HistoryWorld} {op : HistoryOp} {rest : List HistoryTransition}
      (inside : history.world.combat.isSome = true) (stepped : history.step op = some next)
      (run : EncounterRun next rest) : EncounterRun history (⟨history, op, next⟩ :: rest)

/-! ### What a step appends -/

theorem map_payload_envelopesFrom (tick seq : ℕ) (events : List HistoryEvent) :
    (envelopesFrom tick seq events).map HistoryEnvelope.payload = events := by
  induction events generalizing seq with
  | nil => rfl
  | cons event rest ih => rw [envelopesFrom, List.map_cons, ih]

namespace Journaled

variable {history next : HistoryWorld}

/-- Every retained sequence was issued. -/
theorem seq_lt (hjournaled : Journaled history) {envelope : HistoryEnvelope}
    (hmem : envelope ∈ history.pending.envelopes) : envelope.seq < history.nextSeq := by
  have hnext := hjournaled.next
  have hseq := List.mem_map_of_mem (f := HistoryEnvelope.seq) hmem
  rw [hjournaled.seqs, List.mem_range'_1] at hseq
  omega

theorem appended_eq_nil (hjournaled : Journaled history)
    (hkept : ∀ envelope ∈ next.pending.envelopes, envelope ∈ history.pending.envelopes) :
    history.appended next = [] := by
  rw [HistoryWorld.appended, List.map_eq_nil_iff, List.filter_eq_nil_iff]
  intro envelope hmem hlate
  exact absurd (hjournaled.seq_lt (hkept envelope hmem)) (not_lt.mpr (of_decide_eq_true hlate))

theorem commitDrained_appended (hjournaled : Journaled history) {staged : World}
    {collect : List SimEvent → Result HistoryError (List HistoryEvent)}
    (hcommit : history.commitDrained staged collect = .ok next) :
    collect staged.drainEvents.1 = .ok (history.appended next) ∧
      next.world = staged.drainEvents.2 := by
  obtain ⟨events, hevents, hcommit⟩ := bind_eq_ok_iff.mp hcommit
  simp only [HistoryWorld.commit, bind_ok_iff, pure_ok_iff] at hcommit
  obtain ⟨_, -, _, -, _, -, final, hfold, rfl⟩ := hcommit
  obtain ⟨henvelopes, -, -⟩ := HistoryWorld.foldlM_stageEvent hfold
  rw [nil_append] at henvelopes
  refine ⟨hevents.trans (congrArg Result.ok ?_), rfl⟩
  have hold : (history.pending.envelopes.filter fun envelope ↦
      decide (history.nextSeq ≤ envelope.seq)) = [] := by
    rw [List.filter_eq_nil_iff]
    intro envelope hmem hlate
    exact absurd (hjournaled.seq_lt hmem) (not_lt.mpr (of_decide_eq_true hlate))
  have hnew : ((envelopesFrom staged.drainEvents.2.tick history.nextSeq events).filter
      fun envelope ↦ decide (history.nextSeq ≤ envelope.seq)) =
      envelopesFrom staged.drainEvents.2.tick history.nextSeq events := by
    refine List.filter_eq_self.mpr fun envelope hmem ↦ ?_
    have hseq := List.mem_map_of_mem (f := HistoryEnvelope.seq) hmem
    rw [map_seq_envelopesFrom, List.mem_range'_1] at hseq
    exact decide_eq_true hseq.1
  rw [HistoryWorld.appended, Journal.append, henvelopes, filter_append, hold, hnew, nil_append,
    map_payload_envelopesFrom]

end Journaled

/-- What a step does to a running and to a terminal encounter: it appends one end when it makes the
encounter terminal and none otherwise; a terminal encounter stays so, and nothing is drawn,
resolved or started. -/
structure Effect (world next : World) (events : List HistoryEvent) : Prop where
  ends : (events.filter HistoryEvent.isEnd = [] ∧
      (world.nonterminal = true → next.nonterminal = true)) ∨
    ∃ combat round, world.combat = some combat ∧ world.nonterminal = true ∧
      next.nonterminal = false ∧
      events.filter HistoryEvent.isEnd = [.encounterEnded combat.definition.encounter round]
  frozen : world.combat.isSome = true → world.nonterminal = false →
    next.nonterminal = false ∧ next.rng = world.rng ∧ ∀ event ∈ events, event.isPlay = false

/-- An event that only says who came and went. -/
def HistoryEvent.isPresence : HistoryEvent → Bool
  | .spawned _ => true
  | .despawned _ => true
  | .died _ => true
  | _ => false

section Quiet

variable {events : List HistoryEvent}

theorem isPlay_of_isPresence {event : HistoryEvent} (hpresence : event.isPresence = true) :
    event.isPlay = false ∧ event.isEnd = false := by
  cases event <;> first | exact ⟨rfl, rfl⟩ | cases hpresence

theorem filter_isEnd_eq_nil (hpresence : ∀ event ∈ events, event.isPresence = true) :
    events.filter HistoryEvent.isEnd = [] := by
  refine List.filter_eq_nil_iff.mpr fun event hmem ↦ ?_
  rw [(isPlay_of_isPresence (hpresence event hmem)).2]
  exact Bool.false_ne_true

theorem isPresence_translated (drained : List SimEvent) :
    ∀ event ∈ drained.map translateLegacy, event.isPresence = true := by
  refine List.forall_mem_map.mpr fun event _ ↦ ?_
  cases event <;> rfl

/-- A step that leaves the encounter running as it was. -/
theorem Effect.quiet {world next : World} (hpresence : ∀ event ∈ events, event.isPresence = true)
    (hsame : next.nonterminal = world.nonterminal) (hrng : next.rng = world.rng) :
    Effect world next events where
  ends := Or.inl ⟨filter_isEnd_eq_nil hpresence, fun hruns ↦ hsame.trans hruns⟩
  frozen := fun _ hidle ↦ ⟨hsame.trans hidle, hrng, fun event hmem ↦
    (isPlay_of_isPresence (hpresence event hmem)).1⟩

end Quiet

/-! ### Ends among the events -/

theorem filter_isEnd_toList {α : Type} (value : Option α) {event : α → HistoryEvent}
    (hplain : ∀ item, (event item).isEnd = false) :
    (value.map event).toList.filter HistoryEvent.isEnd = [] := by
  cases value with
  | none => rfl
  | some item =>
    rw [Option.map_some, Option.toList_some, filter_cons, hplain item]
    rfl

theorem filter_isEnd_pushLead (facts : TransitionFacts) :
    (pushLead facts).filter HistoryEvent.isEnd = [] := by
  rw [pushLead, filter_append, filter_isEnd_toList _ fun _ ↦ rfl,
    filter_isEnd_toList _ fun _ ↦ rfl, List.append_nil]

theorem filter_isEnd_turnEvents (facts : TransitionFacts) :
    (turnEvents facts).filter HistoryEvent.isEnd = [] :=
  filter_isEnd_toList _ fun _ ↦ rfl

theorem filter_isEnd_endEvents (facts : TransitionFacts) :
    (endEvents facts).filter HistoryEvent.isEnd = endEvents facts := by
  rw [endEvents]
  cases facts.encounterEnded <;> rfl

theorem filter_isEnd_executionEvents {deaths : List SimEvent} {facts : List TickEvent}
    {events : List HistoryEvent} (hevents : executionEvents deaths facts = .ok events) :
    events.filter HistoryEvent.isEnd = [] := by
  induction facts generalizing deaths events with
  | nil =>
    cases hevents
    exact filter_isEnd_eq_nil (isPresence_translated deaths)
  | cons fact rest ih =>
    cases fact with
    | orderEnded actor =>
      obtain ⟨others, hothers, hnext⟩ := bind_eq_ok_iff.mp hevents
      cases hnext
      show List.filter HistoryEvent.isEnd others = []
      exact ih hothers
    | resolved produced =>
      unfold executionEvents at hevents
      split_ifs at hevents
      · cases deaths with
        | nil => cases hevents
        | cons died others =>
          obtain ⟨after, hafter, hnext⟩ := bind_eq_ok_iff.mp hevents
          cases hnext
          have hdied := isPresence_translated [died] _ (List.mem_singleton_self _)
          rw [filter_cons, filter_cons, (isPlay_of_isPresence hdied).2]
          exact ih hafter
      · obtain ⟨after, hafter, hnext⟩ := bind_eq_ok_iff.mp hevents
        cases hnext
        show List.filter HistoryEvent.isEnd after = []
        exact ih hafter

namespace Effect

variable {world next published : World} {combat : CombatState} {facts : TransitionFacts}

theorem reported {lead : List HistoryEvent} (hcombat : world.combat = some combat)
    (hruns : world.nonterminal = true) (hreported : EndReported combat facts next)
    (hlead : lead.filter HistoryEvent.isEnd = [])
    (hsame : published.nonterminal = next.nonterminal) :
    Effect world published (lead ++ pushTransition facts) := by
  refine ⟨?_, fun _ hidle ↦ absurd (hruns.symm.trans hidle) (by decide)⟩
  rw [filter_append, hlead, nil_append, pushTransition, filter_append, filter_isEnd_pushLead,
    nil_append, hsame]
  rcases hreported with ⟨hnone, hgoes⟩ | ⟨⟨round, hended⟩, hturn, hstops⟩
  · refine Or.inl ⟨?_, fun _ ↦ hgoes⟩
    split_ifs
    · exact filter_isEnd_turnEvents facts
    · rw [filter_isEnd_endEvents, endEvents, hnone]
      rfl
  · refine Or.inr ⟨combat, round, hcombat, hruns, hstops, ?_⟩
    rw [hturn, if_neg (by decide), filter_isEnd_endEvents, endEvents, hended]
    rfl

end Effect

/-! ### Steps -/

theorem rng_foldl_release (combat : CombatState) (entries : List (EntityId × Combatant))
    (world : World) : (entries.foldl (release combat) world).rng = world.rng := by
  induction entries generalizing world with
  | nil => rfl
  | cons entry rest ih =>
    rw [List.foldl_cons, ih, release]
    dsimp only
    split <;> rfl

section Steps

variable {history next : HistoryWorld}

theorem drainEvents_nonterminal (staged : World) :
    staged.drainEvents.2.nonterminal = staged.nonterminal :=
  nonterminal_congr rfl rfl

theorem commitDrained_coherent (hjournaled : Journaled history) {staged : World}
    {collect : List SimEvent → Result HistoryError (List HistoryEvent)}
    (hcommit : history.commitDrained staged collect = .ok next) (hcoherent : Coherent staged) :
    Coherent next.world := by
  rw [(hjournaled.commitDrained_appended hcommit).2]
  exact hcoherent.congr rfl rfl rfl

theorem performAction_effect (hjournaled : Journaled history) (hcoherent : Coherent history.world)
    {action : CombatAction} {outcome : Option ActionOutcome}
    (hperform : history.performAction action = .ok (outcome, next)) :
    Coherent next.world ∧ Effect history.world next.world (history.appended next) := by
  simp only [HistoryWorld.performAction, bind_ok_iff, pure_ok_iff, mapErr_eq_ok_iff, Prod.mk.injEq]
    at hperform
  obtain ⟨⟨⟨produced, facts⟩, staged⟩, hperformed, after, hcommit, rfl, rfl⟩ := hperform
  obtain ⟨combat, hcombat, hruns, hreported⟩ := performActionTracked_endReported hperformed
  obtain ⟨hevents, hworld⟩ := hjournaled.commitDrained_appended hcommit
  refine ⟨commitDrained_coherent hjournaled hcommit
    (performActionTracked_coherent hcoherent hperformed), ?_⟩
  rw [← Result.ok.inj hevents, hworld]
  refine Effect.reported hcombat hruns hreported ?_ (drainEvents_nonterminal staged)
  rw [filter_append, filter_isEnd_toList _ fun _ ↦ rfl,
    filter_isEnd_eq_nil (isPresence_translated _), List.append_nil]

variable {id : EntityId}

theorem despawn_effect (hjournaled : Journaled history) (hcoherent : Coherent history.world)
    {removed : Bool} (hdespawn : history.despawn id = .ok (removed, next)) :
    Coherent next.world ∧ Effect history.world next.world (history.appended next) := by
  simp only [HistoryWorld.despawn, bind_ok_iff, pure_ok_iff, mapErr_eq_ok_iff, Prod.mk.injEq]
    at hdespawn
  obtain ⟨⟨⟨flag, facts⟩, staged⟩, htracked, after, hcommit, rfl, rfl⟩ := hdespawn
  obtain ⟨hevents, hworld⟩ := hjournaled.commitDrained_appended hcommit
  refine ⟨commitDrained_coherent hjournaled hcommit (despawnTracked_coherent hcoherent htracked), ?_⟩
  rw [← Result.ok.inj hevents, hworld]
  obtain ⟨combat, hcombat, hruns, hreported⟩ | ⟨hidle, rfl, hterminal, hrng⟩ :=
    despawnTracked_endReported hcoherent htracked
  · exact Effect.reported hcombat hruns hreported
      (filter_isEnd_eq_nil (isPresence_translated _)) (drainEvents_nonterminal staged)
  · refine Effect.quiet ?_ ((drainEvents_nonterminal staged).trans (hterminal.trans hidle.symm)) hrng
    exact List.forall_mem_append.mpr ⟨isPresence_translated _, fun _ hnone ↦
      absurd hnone not_mem_nil⟩

/-- The removal of an entity that does not fight leaves an encounter running. -/
theorem despawn_bystander (hjournaled : Journaled history) (hcoherent : Coherent history.world)
    {removed : Bool} (habsent : id ∉ history.world.combatants.keys)
    (hdespawn : history.despawn id = .ok (removed, next))
    (hruns : history.world.nonterminal = true) : next.world.nonterminal = true := by
  simp only [HistoryWorld.despawn, bind_ok_iff, pure_ok_iff, mapErr_eq_ok_iff, Prod.mk.injEq]
    at hdespawn
  obtain ⟨⟨⟨flag, facts⟩, staged⟩, htracked, after, hcommit, rfl, rfl⟩ := hdespawn
  rw [(hjournaled.commitDrained_appended hcommit).2, drainEvents_nonterminal]
  exact despawnTracked_bystander hcoherent habsent hruns htracked

theorem transferOut_cases {destination entered : HistoryWorld} {entity moved : EntityId}
    (htransfer : transferHistoryEntity history destination entity = .ok (moved, next, entered)) :
    ∃ removed, history.despawn entity = .ok (removed, next) ∧
      entity ∉ history.world.combatants.keys := by
  simp only [transferHistoryEntity, transferPreflight, bind_ok_iff, pure_ok_iff, mapErr_eq_ok_iff,
    Result.failIf_eq_ok_iff, Prod.mk.injEq] at htransfer
  obtain ⟨_, ⟨_, -, _, -, _, -, _, -, _, hfights, -⟩, _, -, ⟨removed, left⟩, hremoved, _, -, -, rfl,
    -⟩ := htransfer
  exact ⟨removed, hremoved, fun hmem ↦ hfights (IndexMap.contains_eq_true_iff.mpr hmem)⟩

theorem transferIn_cases {source left : HistoryWorld} {entity moved : EntityId}
    (htransfer : transferHistoryEntity source history entity = .ok (moved, left, next)) :
    ∃ data spawned, history.spawnWithCreature data (source.world.creatures.get? entity) =
      .ok (moved, spawned) ∧
      next = spawned.attachTransform moved (source.world.transforms.get? entity) := by
  simp only [transferHistoryEntity, bind_ok_iff, pure_ok_iff, mapErr_eq_ok_iff, Prod.mk.injEq]
    at htransfer
  obtain ⟨_, -, data, -, _, -, ⟨id, spawned⟩, hspawned, rfl, -, rfl⟩ := htransfer
  exact ⟨data, spawned, hspawned, rfl⟩

section

variable (hjournaled : Journaled history)
include hjournaled

theorem tick_effect (hcoherent : Coherent history.world) (htick : history.tick = .ok next) :
    Coherent next.world ∧ Effect history.world next.world (history.appended next) := by
  simp only [HistoryWorld.tick, bind_ok_iff, mapErr_eq_ok_iff] at htick
  obtain ⟨⟨facts, staged⟩, htracked, hcommit⟩ := htick
  obtain ⟨hevents, hworld⟩ := hjournaled.commitDrained_appended hcommit
  obtain ⟨executed, hexecuted, hcollected⟩ := bind_eq_ok_iff.mp hevents
  refine ⟨commitDrained_coherent hjournaled hcommit (tickTracked_coherent hcoherent htracked), ?_⟩
  rw [← Result.ok.inj hcollected, hworld]
  obtain ⟨rfl, rfl⟩ | ⟨combat, hcombat, hruns, hreported⟩ := tickTracked_cases htracked
  · cases hexecuted
    refine Effect.quiet ?_ (drainEvents_nonterminal _) rfl
    exact List.forall_mem_append.mpr ⟨List.forall_mem_append.mpr ⟨fun _ hnone ↦
      absurd hnone not_mem_nil, isPresence_translated _⟩, fun _ hnone ↦
      absurd hnone not_mem_nil⟩
  · refine ⟨?_, fun _ hidle ↦ absurd (hruns.symm.trans hidle) (by decide)⟩
    rw [filter_append, filter_append, filter_append, filter_isEnd_pushLead, filter_isEnd_turnEvents,
      filter_isEnd_executionEvents hexecuted, filter_isEnd_endEvents, nil_append, nil_append,
      nil_append, drainEvents_nonterminal]
    rcases hreported with ⟨hnone, hgoes⟩ | ⟨⟨round, hended⟩, hstops⟩
    · refine Or.inl ⟨?_, fun _ ↦ hgoes⟩
      rw [endEvents, hnone]
      rfl
    · refine Or.inr ⟨combat, round, hcombat, hruns, hstops, ?_⟩
      rw [endEvents, hended]
      rfl

theorem commitTranslated_effect {staged : World}
    (hcommit : history.commitDrained staged HistoryWorld.translated = .ok next)
    (hsame : staged.nonterminal = history.world.nonterminal)
    (hrng : staged.rng = history.world.rng) :
    Effect history.world next.world (history.appended next) ∧
      next.world.nonterminal = history.world.nonterminal := by
  obtain ⟨hevents, hworld⟩ := hjournaled.commitDrained_appended hcommit
  have hkept := (drainEvents_nonterminal staged).trans hsame
  rw [← Result.ok.inj hevents, hworld]
  exact ⟨Effect.quiet (isPresence_translated _) hkept hrng, hkept⟩

section

variable (hcoherent : Coherent history.world)
include hcoherent

theorem spawnWithCreature_effect {data : EntityMeta} {creature : Option CreatureState}
    (hspawn : history.spawnWithCreature data creature = .ok (id, next)) :
    Coherent next.world ∧ Effect history.world next.world (history.appended next) ∧
      next.world.nonterminal = history.world.nonterminal := by
  simp only [HistoryWorld.spawnWithCreature, bind_ok_iff, pure_ok_iff, Result.expect_eq_ok_iff,
    Prod.mk.injEq] at hspawn
  obtain ⟨⟨minted, spawned⟩, hmint, after, hcommit, rfl, rfl⟩ := hspawn
  have hstaged := spawn_coherent hcoherent hmint
  obtain ⟨_, _, rfl⟩ := spawn_frame hmint
  exact ⟨commitDrained_coherent hjournaled hcommit (hstaged.congr rfl rfl rfl),
    commitTranslated_effect hjournaled hcommit (nonterminal_congr rfl rfl) rfl⟩

theorem registerCreature_effect {spec : CreatureSpec}
    (hregister : history.registerCreature spec = .ok (id, next)) :
    Coherent next.world ∧ Effect history.world next.world (history.appended next) ∧
      next.world.nonterminal = history.world.nonterminal := by
  simp only [HistoryWorld.registerCreature, bind_ok_iff, pure_ok_iff, mapErr_eq_ok_iff,
    Prod.mk.injEq] at hregister
  obtain ⟨⟨minted, registered⟩, hmint, after, hcommit, rfl, rfl⟩ := hregister
  have hstaged := registerCreature_coherent hcoherent hmint
  obtain ⟨spawned, record, hspawned, rfl⟩ := registerCreature_frame hmint
  obtain ⟨_, _, rfl⟩ := spawn_frame hspawned
  exact ⟨commitDrained_coherent hjournaled hcommit hstaged,
    commitTranslated_effect hjournaled hcommit (nonterminal_congr rfl rfl) rfl⟩

theorem startEncounterInMode_effect {spec : EncounterSpec} {mode : EncounterMode}
    (hstart : history.startEncounterInMode spec mode = .ok next) :
    Coherent next.world ∧ Effect history.world next.world (history.appended next) ∧
      history.world.nonterminal = false := by
  simp only [HistoryWorld.startEncounterInMode, bind_ok_iff, mapErr_eq_ok_iff] at hstart
  obtain ⟨⟨facts, staged⟩, hstarted, hcommit⟩ := hstart
  have hnone : history.world.combat = none := by
    simp only [startEncounterInModeTracked, bind_ok_iff] at hstarted
    obtain ⟨prepared, hprepare, -⟩ := hstarted
    exact combat_eq_none_of_prepare hprepare
  have hidle := nonterminal_none hnone
  obtain ⟨hevents, hworld⟩ := hjournaled.commitDrained_appended hcommit
  refine ⟨commitDrained_coherent hjournaled hcommit
    (startEncounterInModeTracked_coherent hcoherent hstarted),
    ⟨Or.inl ⟨?_, fun hruns ↦ absurd (hruns.symm.trans hidle) (by decide)⟩, ?_⟩, hidle⟩
  · rw [← Result.ok.inj hevents, filter_append,
      filter_isEnd_eq_nil (isPresence_translated _), nil_append]
    exact filter_isEnd_toList _ fun _ ↦ rfl
  · intro hsome
    rw [hnone] at hsome
    cases hsome

theorem endEncounter_effect {summary : EncounterSummary}
    (hend : history.endEncounter = .ok (summary, next)) :
    Coherent next.world ∧ next.world.combat = none ∧ next.world.rng = history.world.rng ∧
      ∀ event ∈ history.appended next, event.isPresence = true := by
  simp only [HistoryWorld.endEncounter, bind_ok_iff, pure_ok_iff, mapErr_eq_ok_iff, Prod.mk.injEq]
    at hend
  obtain ⟨⟨_, released⟩, hreleased, after, hcommit, rfl, rfl⟩ := hend
  obtain ⟨hevents, hworld⟩ := hjournaled.commitDrained_appended hcommit
  refine ⟨commitDrained_coherent hjournaled hcommit (endEncounter_coherent hcoherent hreleased),
    ?_, ?_, ?_⟩
  · rw [hworld]
    simp only [Crpg.Sim.endEncounter, bind_ok_iff, pure_ok_iff, Prod.mk.injEq] at hreleased
    obtain ⟨_, -, -, rfl⟩ := hreleased
    rfl
  · rw [hworld]
    simp only [Crpg.Sim.endEncounter, bind_ok_iff, pure_ok_iff, Prod.mk.injEq] at hreleased
    obtain ⟨combat, -, -, rfl⟩ := hreleased
    exact rng_foldl_release combat _ history.world
  · rw [← Result.ok.inj hevents]
    exact isPresence_translated _

theorem requestMode_effect {mode : EncounterMode} (hrequest : history.requestMode mode = .ok next) :
    Coherent next.world ∧ Effect history.world next.world (history.appended next) ∧
      next.world.nonterminal = history.world.nonterminal := by
  simp only [HistoryWorld.requestMode, bind_ok_iff, mapErr_eq_ok_iff] at hrequest
  obtain ⟨staged, hrequested, hcommit⟩ := hrequest
  obtain ⟨hevents, hworld⟩ := hjournaled.commitDrained_appended hcommit
  have hnext := commitDrained_coherent hjournaled hcommit (requestMode_coherent hcoherent hrequested)
  refine ⟨hnext, ?_⟩
  rw [← Result.ok.inj hevents, hworld]
  simp only [Crpg.Sim.requestMode, bind_ok_iff, pure_ok_iff, Result.okOr_eq_ok_iff] at hrequested
  obtain ⟨combat, hcombat, _, -, rfl⟩ := hrequested
  have hsame : ({ history.world with combat := some { combat with
      pendingMode := if mode = combat.mode then none else some mode } } :
        World).drainEvents.2.nonterminal = history.world.nonterminal := by
    rw [drainEvents_nonterminal, World.nonterminal, World.nonterminal, hcombat]
    rfl
  exact ⟨Effect.quiet (fun _ hmem ↦ absurd hmem not_mem_nil) hsame rfl, hsame⟩

end

theorem acknowledge_effect {through : ℕ} (hacknowledge : history.acknowledge through = .ok next) :
    next.world = history.world ∧ history.appended next = [] := by
  unfold HistoryWorld.acknowledge at hacknowledge
  split_ifs at hacknowledge
  · cases hacknowledge
    exact ⟨rfl, hjournaled.appended_eq_nil fun _ hmem ↦ hmem⟩
  · cases hacknowledge
    refine ⟨rfl, hjournaled.appended_eq_nil fun envelope hmem ↦ ?_⟩
    change envelope ∈ (Journal.drainPrefix _ _).envelopes at hmem
    rw [Journal.envelopes_drainPrefix] at hmem
    exact List.mem_of_mem_drop hmem

end

/-- What holds of the old history and of what the call returns holds after the call. -/
@[elab_as_elim]
theorem after_elim {ε α : Type} {motive : HistoryWorld → Prop} {select : α → HistoryWorld}
    {result : Result ε α} (hafter : history.after select result = some next)
    (hsame : motive history) (hreturned : ∀ value, result = .ok value → motive (select value)) :
    motive next := by
  cases result with
  | ok value => exact Option.some.inj hafter ▸ hreturned value rfl
  | err error => exact Option.some.inj hafter ▸ hsame
  | panic => cases hafter

/-- A step that leaves a running encounter running appends no end. -/
theorem Effect.no_end {world after : World} {events : List HistoryEvent}
    (heffect : Effect world after events)
    (hgoes : world.nonterminal = true → after.nonterminal = true) :
    events.filter HistoryEvent.isEnd = [] := by
  rcases heffect.ends with ⟨hnone, -⟩ | ⟨_, _, -, hruns, hstops, -⟩
  · exact hnone
  · exact absurd ((hgoes hruns).symm.trans hstops) (by decide)

/-- What every step keeps, and what it does to the encounter. -/
structure StepSpec (history : HistoryWorld) (op : HistoryOp) (next : HistoryWorld) : Prop where
  journaled : Journaled next
  coherent : Coherent next.world
  effect : op.isRelease = false → Effect history.world next.world (history.appended next)
  release : op.isRelease = true → next.world.nonterminal = false ∨
    next.world.nonterminal = history.world.nonterminal
  releaseQuiet : op.isRelease = true → next.world.rng = history.world.rng ∧
    ∀ event ∈ history.appended next, event.isPresence = true
  mayEnd : (history.appended next).filter HistoryEvent.isEnd ≠ [] → op.mayEnd = true

variable {op : HistoryOp}

theorem StepSpec.silent (hjournaled : Journaled next) (hcoherent : Coherent next.world)
    (hnothing : history.appended next = [])
    (hsame : next.world.nonterminal = history.world.nonterminal)
    (hrng : next.world.rng = history.world.rng) : StepSpec history op next := by
  have hpresence : ∀ event ∈ history.appended next, event.isPresence = true := by
    rw [hnothing]
    exact fun _ hmem ↦ absurd hmem not_mem_nil
  refine ⟨hjournaled, hcoherent, fun _ ↦ Effect.quiet hpresence hsame hrng, fun _ ↦ Or.inr hsame,
    fun _ ↦ ⟨hrng, hpresence⟩, fun hends ↦ absurd ?_ hends⟩
  rw [hnothing]
  rfl

theorem StepSpec.effective (hplain : op.isRelease = false) (hjournaled : Journaled next)
    (hcoherent : Coherent next.world)
    (heffect : Effect history.world next.world (history.appended next))
    (hmay : (history.appended next).filter HistoryEvent.isEnd ≠ [] → op.mayEnd = true) :
    StepSpec history op next where
  journaled := hjournaled
  coherent := hcoherent
  effect := fun _ ↦ heffect
  release := fun hrelease ↦ absurd (hrelease.symm.trans hplain) (by decide)
  releaseQuiet := fun hrelease ↦ absurd (hrelease.symm.trans hplain) (by decide)
  mayEnd := hmay

theorem step_spec (hjournaled : Journaled history) (hcoherent : Coherent history.world)
    (hstep : history.step op = some next) : StepSpec history op next := by
  have hsame : StepSpec history op history :=
    StepSpec.silent hjournaled hcoherent (hjournaled.appended_eq_nil fun _ hmem ↦ hmem) rfl rfl
  cases op with
  | spawn data =>
    refine after_elim hstep hsame ?_
    rintro ⟨id, after⟩ hreturned
    obtain ⟨hnext, heffect, hkept⟩ := spawnWithCreature_effect hjournaled hcoherent hreturned
    exact StepSpec.effective rfl (hjournaled.spawnWithCreature hreturned).1 hnext heffect
      fun hends ↦ absurd (heffect.no_end hkept.trans) hends
  | registerCreature spec =>
    refine after_elim hstep hsame ?_
    rintro ⟨id, after⟩ hreturned
    obtain ⟨hnext, heffect, hkept⟩ := registerCreature_effect hjournaled hcoherent hreturned
    exact StepSpec.effective rfl (hjournaled.registerCreature hreturned) hnext heffect
      fun hends ↦ absurd (heffect.no_end hkept.trans) hends
  | despawn entity =>
    refine after_elim hstep hsame ?_
    rintro ⟨removed, after⟩ hreturned
    obtain ⟨hnext, heffect⟩ := despawn_effect hjournaled hcoherent hreturned
    exact StepSpec.effective rfl (hjournaled.despawn hreturned) hnext heffect fun _ ↦ rfl
  | tick =>
    refine after_elim hstep hsame fun after hreturned ↦ ?_
    obtain ⟨hnext, heffect⟩ := tick_effect hjournaled hcoherent hreturned
    exact StepSpec.effective rfl (hjournaled.tick hreturned) hnext heffect fun _ ↦ rfl
  | startEncounterInMode spec mode =>
    refine after_elim hstep hsame fun after hreturned ↦ ?_
    obtain ⟨hnext, heffect, hidle⟩ := startEncounterInMode_effect hjournaled hcoherent hreturned
    exact StepSpec.effective rfl (hjournaled.startEncounterInMode hreturned) hnext heffect
      fun hends ↦ absurd (heffect.no_end fun hruns ↦
        absurd (hruns.symm.trans hidle) (by decide)) hends
  | performAction action =>
    refine after_elim hstep hsame ?_
    rintro ⟨outcome, after⟩ hreturned
    obtain ⟨hnext, heffect⟩ := performAction_effect hjournaled hcoherent hreturned
    exact StepSpec.effective rfl (hjournaled.performAction hreturned) hnext heffect fun _ ↦ rfl
  | endEncounter =>
    refine after_elim hstep hsame ?_
    rintro ⟨summary, after⟩ hreturned
    obtain ⟨hnext, hnone, hrng, hpresence⟩ := endEncounter_effect hjournaled hcoherent hreturned
    exact ⟨hjournaled.endEncounter hreturned, hnext, nofun, fun _ ↦ Or.inl (nonterminal_none hnone),
      fun _ ↦ ⟨hrng, hpresence⟩, fun hends ↦ absurd (filter_isEnd_eq_nil hpresence) hends⟩
  | requestMode mode =>
    refine after_elim hstep hsame fun after hreturned ↦ ?_
    obtain ⟨hnext, heffect, hkept⟩ := requestMode_effect hjournaled hcoherent hreturned
    exact StepSpec.effective rfl (hjournaled.requestMode hreturned) hnext heffect
      fun hends ↦ absurd (heffect.no_end hkept.trans) hends
  | acknowledge through =>
    refine after_elim hstep hsame fun after hreturned ↦ ?_
    obtain ⟨hworld, hnothing⟩ := acknowledge_effect hjournaled hreturned
    exact StepSpec.silent (hjournaled.acknowledge hreturned) (hworld ▸ hcoherent) hnothing
      (congrArg World.nonterminal hworld) (congrArg World.rng hworld)
  | transferOut destination entity =>
    refine after_elim hstep hsame ?_
    rintro ⟨moved, left, entered⟩ hreturned
    obtain ⟨removed, hremoved, habsent⟩ := transferOut_cases hreturned
    obtain ⟨hnext, heffect⟩ := despawn_effect hjournaled hcoherent hremoved
    exact StepSpec.effective rfl (hjournaled.despawn hremoved) hnext heffect fun hends ↦
      absurd (heffect.no_end (despawn_bystander hjournaled hcoherent habsent hremoved)) hends
  | transferIn source entity =>
    refine after_elim hstep hsame ?_
    rintro ⟨moved, left, entered⟩ hreturned
    obtain ⟨data, spawned, hspawned, rfl⟩ := transferIn_cases hreturned
    obtain ⟨hnext, heffect, hkept⟩ := spawnWithCreature_effect hjournaled hcoherent hspawned
    obtain ⟨hjoined, hlive⟩ := hjournaled.spawnWithCreature hspawned
    have heffect : Effect history.world (spawned.attachTransform moved
        (source.world.transforms.get? entity)).world (history.appended (spawned.attachTransform moved
        (source.world.transforms.get? entity))) :=
      ⟨heffect.ends, heffect.frozen⟩
    exact StepSpec.effective rfl (hjoined.attachTransform hlive _) (hnext.congr rfl rfl rfl) heffect
      fun hends ↦ absurd (heffect.no_end hkept.trans) hends

end Steps

/-! ### Whole encounters -/

variable {history : HistoryWorld} {trace : List HistoryTransition}

theorem EncounterRun.spec (hjournaled : Journaled history) (hcoherent : Coherent history.world)
    (hrun : EncounterRun history trace) :
    ∀ transition ∈ trace, StepSpec transition.before transition.op transition.after ∧
      transition.before.world.combat.isSome = true := by
  induction hrun with
  | nil history => exact fun _ hmem ↦ absurd hmem not_mem_nil
  | cons hinside hstep _ ih =>
    have hspec := step_spec hjournaled hcoherent hstep
    exact List.forall_mem_cons.mpr ⟨⟨hspec, hinside⟩, ih hspec.journaled hspec.coherent⟩

/-- What a step of a terminal encounter does not do. -/
def HistoryTransition.Frozen (transition : HistoryTransition) : Prop :=
  transition.after.world.nonterminal = false ∧
    transition.after.world.rng = transition.before.world.rng ∧
    (∀ event ∈ transition.before.appended transition.after, event.isPlay = false) ∧
    transition.ends = []

theorem StepSpec.frozen {next : HistoryWorld} {op : HistoryOp} (hspec : StepSpec history op next)
    (hinside : history.world.combat.isSome = true) (hidle : history.world.nonterminal = false) :
    HistoryTransition.Frozen ⟨history, op, next⟩ := by
  cases hrelease : op.isRelease with
  | false =>
    have heffect := hspec.effect hrelease
    obtain ⟨hstays, hrng, hplay⟩ := heffect.frozen hinside hidle
    exact ⟨hstays, hrng, hplay,
      heffect.no_end fun hruns ↦ absurd (hruns.symm.trans hidle) (by decide)⟩
  | true =>
    obtain ⟨hrng, hpresence⟩ := hspec.releaseQuiet hrelease
    refine ⟨?_, hrng, fun event hmem ↦ (isPlay_of_isPresence (hpresence event hmem)).1,
      filter_isEnd_eq_nil hpresence⟩
    exact (hspec.release hrelease).elim (fun hstops ↦ hstops) fun hsame ↦ hsame.trans hidle

theorem EncounterRun.frozen (hjournaled : Journaled history) (hcoherent : Coherent history.world)
    (hrun : EncounterRun history trace) (hidle : history.world.nonterminal = false) :
    ∀ transition ∈ trace, transition.Frozen := by
  induction hrun with
  | nil history => exact fun _ hmem ↦ absurd hmem not_mem_nil
  | cons hinside hstep _ ih =>
    have hspec := step_spec hjournaled hcoherent hstep
    have hfrozen := hspec.frozen hinside hidle
    exact List.forall_mem_cons.mpr ⟨hfrozen, ih hspec.journaled hspec.coherent hfrozen.1⟩

/-- A step appends an end exactly when it makes a running encounter terminal without releasing
it. -/
theorem StepSpec.ends_iff {next : HistoryWorld} {op : HistoryOp}
    (hspec : StepSpec history op next) :
    (HistoryTransition.ends ⟨history, op, next⟩ ≠ [] ↔ history.world.nonterminal = true ∧
        next.world.nonterminal = false ∧ op.isRelease = false) ∧
      (HistoryTransition.ends ⟨history, op, next⟩ ≠ [] → op.mayEnd = true ∧
        ∃ combat round, history.world.combat = some combat ∧
          HistoryTransition.ends ⟨history, op, next⟩ =
            [.encounterEnded combat.definition.encounter round]) := by
  cases hrelease : op.isRelease with
  | false =>
    rcases (hspec.effect hrelease).ends with ⟨hnone, hgoes⟩ |
      ⟨combat, round, hcombat, hruns, hstops, hend⟩
    · refine ⟨⟨fun hends ↦ absurd hnone hends, fun ⟨hruns, hstops, _⟩ ↦ ?_⟩,
        fun hends ↦ absurd hnone hends⟩
      exact absurd ((hgoes hruns).symm.trans hstops) (by decide)
    · have hends : HistoryTransition.ends ⟨history, op, next⟩ ≠ [] := by
        rw [HistoryTransition.ends, hend]
        exact List.cons_ne_nil _ _
      exact ⟨⟨fun _ ↦ ⟨hruns, hstops, rfl⟩, fun _ ↦ hends⟩,
        fun _ ↦ ⟨hspec.mayEnd hends, combat, round, hcombat, hend⟩⟩
  | true =>
    have hnone := filter_isEnd_eq_nil (hspec.releaseQuiet hrelease).2
    exact ⟨⟨fun hends ↦ absurd hnone hends, fun hboth ↦ absurd hboth.2.2 (by decide)⟩,
      fun hends ↦ absurd hnone hends⟩

theorem EncounterRun.ends_le_one (hjournaled : Journaled history)
    (hcoherent : Coherent history.world) (hrun : EncounterRun history trace) :
    (trace.flatMap HistoryTransition.ends).length ≤ 1 := by
  induction hrun with
  | nil history => exact Nat.zero_le 1
  | @cons history next op rest hinside hstep hrest ih =>
    have hspec := step_spec hjournaled hcoherent hstep
    have hafter := ih hspec.journaled hspec.coherent
    rw [List.flatMap_cons, List.length_append]
    by_cases hends : HistoryTransition.ends ⟨history, op, next⟩ = []
    · rw [hends, List.length_nil, Nat.zero_add]
      exact hafter
    · -- The step that ends the encounter leaves it terminal, so no later step ends it again.
      obtain ⟨hiff, hnamed⟩ := hspec.ends_iff
      obtain ⟨-, hstops, -⟩ := hiff.mp hends
      obtain ⟨-, combat, round, -, hone⟩ := hnamed hends
      have hlater : rest.flatMap HistoryTransition.ends = [] := by
        refine List.flatMap_eq_nil_iff.mpr fun later hlater ↦ ?_
        exact (hrest.frozen hspec.journaled hspec.coherent hstops later hlater).2.2.2
      rw [hone, hlater]
      exact le_rfl

theorem EncounterRun.suffix {first rest : List HistoryTransition} {transition : HistoryTransition}
    (hjournaled : Journaled history) (hcoherent : Coherent history.world)
    (hrun : EncounterRun history (first ++ transition :: rest)) :
    Journaled transition.before ∧ Coherent transition.before.world ∧
      EncounterRun transition.before (transition :: rest) := by
  induction first generalizing history with
  | nil =>
    cases hrun with
    | cons hinside hstep hrest => exact ⟨hjournaled, hcoherent, .cons hinside hstep hrest⟩
  | cons head tail ih =>
    cases hrun with
    | cons hinside hstep hrest =>
      have hspec := step_spec hjournaled hcoherent hstep
      exact ih hspec.journaled hspec.coherent hrest

theorem coherent_of_historyReachable (hreach : HistoryReachable history) :
    Coherent history.world := by
  induction hreach with
  | new seed => exact new_coherent seed none
  | newInArea seed area => exact new_coherent seed (some area)
  | spawn hbefore hreturned ih =>
    exact (spawnWithCreature_effect (journaled_of_reachable hbefore) ih hreturned).1
  | register hbefore hreturned ih =>
    exact (registerCreature_effect (journaled_of_reachable hbefore) ih hreturned).1
  | despawn hbefore hreturned ih =>
    exact (despawn_effect (journaled_of_reachable hbefore) ih hreturned).1
  | tick hbefore hreturned ih => exact (tick_effect (journaled_of_reachable hbefore) ih hreturned).1
  | start hbefore hreturned ih =>
    exact (startEncounterInMode_effect (journaled_of_reachable hbefore) ih hreturned).1
  | perform hbefore hreturned ih =>
    exact (performAction_effect (journaled_of_reachable hbefore) ih hreturned).1
  | endEncounter hbefore hreturned ih =>
    exact (endEncounter_effect (journaled_of_reachable hbefore) ih hreturned).1
  | requestMode hbefore hreturned ih =>
    exact (requestMode_effect (journaled_of_reachable hbefore) ih hreturned).1
  | acknowledge hbefore hreturned ih =>
    rw [(acknowledge_effect (journaled_of_reachable hbefore) hreturned).1]
    exact ih
  | transferOut hsource _ hreturned ih _ =>
    obtain ⟨removed, hremoved, -⟩ := transferOut_cases hreturned
    exact (despawn_effect (journaled_of_reachable hsource) ih hremoved).1
  | transferIn _ hdestination hreturned _ ih =>
    obtain ⟨data, spawned, hspawned, rfl⟩ := transferIn_cases hreturned
    exact (spawnWithCreature_effect (journaled_of_reachable hdestination) ih hspawned).1.congr
      rfl rfl rfl

/-- From its start to its release an encounter is journaled as ended at most once, and a step
journals the end exactly when it takes the encounter from running to terminal without releasing it:
an action, a tick or a despawn, which names the encounter. Once the encounter is terminal, every
later step leaves it terminal, draws nothing, and journals no resolution and no start of a turn, a
round or a mode. -/
theorem natural_end_once {history started : HistoryWorld} {spec : EncounterSpec}
    {mode : EncounterMode} {trace : List HistoryTransition} (hreach : HistoryReachable history)
    (hstart : history.startEncounterInMode spec mode = .ok started)
    (hrun : EncounterRun started trace) :
    (history.appended started).filter HistoryEvent.isEnd = [] ∧
    (trace.flatMap HistoryTransition.ends).length ≤ 1 ∧ (∀ transition ∈ trace,
      (transition.ends ≠ [] ↔ transition.before.world.nonterminal = true ∧
        transition.after.world.nonterminal = false ∧ transition.op.isRelease = false) ∧
      (transition.ends ≠ [] → transition.op.mayEnd = true ∧
        ∃ combat round, transition.before.world.combat = some combat ∧
          transition.ends = [.encounterEnded combat.definition.encounter round])) ∧
    ∀ first transition rest, trace = first ++ transition :: rest →
      transition.before.world.nonterminal = false → ∀ later ∈ transition :: rest,
        later.after.world.nonterminal = false ∧ later.after.world.rng = later.before.world.rng ∧
        (∀ event ∈ later.before.appended later.after, event.isPlay = false) ∧ later.ends = [] := by
  have hbefore := journaled_of_reachable hreach
  have hjournaled := hbefore.startEncounterInMode hstart
  obtain ⟨hcoherent, heffect, hidle⟩ :=
    startEncounterInMode_effect hbefore (coherent_of_historyReachable hreach) hstart
  refine ⟨heffect.no_end fun hruns ↦ absurd (hruns.symm.trans hidle) (by decide),
    hrun.ends_le_one hjournaled hcoherent, fun transition hmem ↦ ?_, ?_⟩
  · exact (hrun.spec hjournaled hcoherent transition hmem).1.ends_iff
  · rintro first transition rest rfl hterminal later hlater
    obtain ⟨hjournaled, hcoherent, hrest⟩ := hrun.suffix hjournaled hcoherent
    exact hrest.frozen hjournaled hcoherent hterminal later hlater

/-- The duel in which the first kills itself, and time goes on. -/
def duelHistory : Result HistoryError (HistoryWorld × HistoryWorld × HistoryWorld) := do
  let started ← (HistoryWorld.new 0).startEncounterInMode duelSpec .turnBased
  let acted ← started.performAction (.useAbility ⟨0, 1⟩ 3 ⟨0, 1⟩)
  let ticked ← acted.2.tick
  pure (started, acted.2, ticked)

/-- The suicide journals the end of the duel, and the tick after it nothing. -/
theorem duel_end_once : ∃ started trace,
    (HistoryWorld.new 0).startEncounterInMode duelSpec .turnBased = .ok started ∧
      EncounterRun started trace ∧ trace.length = 2 ∧
      (trace.flatMap HistoryTransition.ends).length = 1 := by
  obtain ⟨states, hrun, hstates⟩ := Result.isOkAnd_iff.mp
    (show duelHistory.isOkAnd (fun states ↦ states.1.world.combat.isSome &&
      states.1.world.nonterminal && states.2.1.world.combat.isSome &&
      !states.2.1.world.nonterminal) = true by decide +kernel)
  simp only [duelHistory, bind_ok_iff, pure_ok_iff] at hrun
  obtain ⟨started, hstart, ⟨outcome, acted⟩, hacted, ticked, hticked, rfl⟩ := hrun
  have hkilled : started.step (.performAction (.useAbility ⟨0, 1⟩ 3 ⟨0, 1⟩)) = some acted := by
    rw [HistoryWorld.step, hacted]
    rfl
  have hpassed : acted.step .tick = some ticked := by
    rw [HistoryWorld.step, hticked]
    rfl
  simp only [Bool.and_eq_true, Bool.not_eq_true'] at hstates
  obtain ⟨⟨⟨hinside, hruns⟩, hstill⟩, hterminal⟩ := hstates
  have htrace := EncounterRun.cons hinside hkilled (.cons hstill hpassed (.nil ticked))
  obtain ⟨-, hone, hsteps, -⟩ := natural_end_once (.new 0) hstart htrace
  refine ⟨started, _, hstart, htrace, rfl, hone.antisymm ?_⟩
  have hends := (hsteps _ (List.mem_cons_self ..)).1.mpr ⟨hruns, hterminal, rfl⟩
  rw [List.flatMap_cons, List.length_append]
  exact (List.length_pos_iff.mpr hends).trans_le (Nat.le_add_right _ _)

end Crpg.Sim
