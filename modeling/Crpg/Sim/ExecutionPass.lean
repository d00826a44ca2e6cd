import Crpg.Sim.Enqueued
import Crpg.Sim.Purses

/-!
# The execution pass

A real-time tick executes the due orders of a snapshot of the timeline, while resolutions kill
combatants and re-key actors under it. `Pass` says what happens to each due entry in turn: it is
passed over when it is dead or has no order, its order ends when it no longer validates, or it
resolves; and the pass stops when fewer than two are alive. `Report` is what this leaves of every
combatant at the end: an actor is re-keyed after its recovery, and a combatant that did not act and
survives keeps its key, its order and its pools.
-/

set_option autoImplicit false

namespace Crpg.Sim

open Crpg.Core Crpg.Lib Crpg.Rules Crpg.Data
open Result (bind_eq_ok_iff bind_ok_iff isOkAnd_iff ok_bind pure_eq pure_ok_iff)

/-! ### What a step leaves alone -/

def TickEvent.actor : TickEvent → EntityId
  | .resolved produced => produced.actor
  | .orderEnded actor => actor

def SameKey (before after : World) (id : EntityId) : Prop :=
  ∀ slot : TurnKey, slot.entity = id → (slot ∈ after.timeline ↔ slot ∈ before.timeline)

structure Untouched (before after : World) (id : EntityId) : Prop where
  key : SameKey before after id
  combatant : ∃ old new, before.combatants.get? id = some old ∧
    after.combatants.get? id = some new ∧ new.order = old.order ∧ new.pools = old.pools

namespace Untouched

variable {first second third : World} {id : EntityId}

theorem refl {combatant : Combatant} (hget : first.combatants.get? id = some combatant) :
    Untouched first first id :=
  ⟨fun _ _ ↦ Iff.rfl, combatant, combatant, hget, hget, rfl, rfl⟩

theorem trans (hfirst : Untouched first second id) (hsecond : Untouched second third id) :
    Untouched first third id := by
  obtain ⟨old, middle, hold, hmiddle, horder, hpools⟩ := hfirst.combatant
  obtain ⟨found, new, hfound, hnew, horder', hpools'⟩ := hsecond.combatant
  rw [hmiddle, Option.some.injEq] at hfound
  subst hfound
  exact ⟨fun slot hslot ↦ (hsecond.key slot hslot).trans (hfirst.key slot hslot), old, new, hold,
    hnew, horder'.trans horder, hpools'.trans hpools⟩

end Untouched

section Steps

variable {world next : World} {actor id : EntityId}

variable {combatant : Combatant} {target : EntityId} {ability : Ulid} {produced : ActionOutcome}

/-- Ending the order of an actor touches nobody else. -/
theorem untouched_modifyCombatant (hne : id ≠ actor) (transform : Combatant → Combatant)
    (hget : world.combatants.get? id = some combatant) :
    Untouched world (world.modifyCombatant actor transform) id := by
  refine ⟨fun _ _ ↦ Iff.rfl, combatant, combatant, hget, ?_, rfl, rfl⟩
  show (world.combatants.modify actor transform).get? id = some combatant
  rw [IndexMap.get?_modify, if_neg hne]
  exact hget

/-- A resolution touches no order, no key, and no pool of another than its actor. -/
theorem untouched_resolveUse
    (hresolve : resolveUse world actor ability target = .ok (produced, next)) (hne : id ≠ actor)
    (hknown : id ∈ world.combatants.keys) : Untouched world next id := by
  obtain ⟨_, _, interners, rng, spent, -, -, hspent, -, hpurses⟩ := resolveUse_pools hresolve
  obtain ⟨_, _, _, combatants, heq, hkept, -⟩ := resolveUse_frame hresolve
  have htimeline : next.timeline = world.timeline := by rw [heq]
  have hkept : Kept world.combatants next.combatants := by rwa [heq]
  obtain ⟨old, hold⟩ := IndexMap.mem_keys_iff.mp hknown
  obtain ⟨new, hnew, hkeeps⟩ := hkept.get?_eq_some' hold
  refine ⟨fun slot _ ↦ by rw [htimeline], old, new, hold, hnew, hkeeps.order, ?_⟩
  -- Only the actor pays, so the pools of another are the ones before the payment.
  have hunpaid : spent.combatants.get? id = some old := by
    simp only [spendCosts, bind_eq_ok_iff, Result.expect_eq_ok_iff] at hspent
    obtain ⟨_, -, paid, -, hpaid⟩ := hspent
    rw [← Result.ok.inj hpaid]
    show (world.combatants.modify actor fun _ ↦ paid).get? id = some old
    rw [IndexMap.get?_modify, if_neg hne]
    exact hold
  obtain ⟨after, hafter, hpools⟩ := IndexMap.Rel.get?_eq_some' hpurses hunpaid
  rw [hnew, Option.some.injEq] at hafter
  rw [hafter]
  exact hpools

theorem get?_buryDead (hget : world.combatants.get? id = some combatant)
    (halive : combatant.dead = false) : (buryDead world).combatants.get? id = some combatant := by
  show (world.combatants.mapValues _).get? id = some combatant
  rw [IndexMap.get?_mapValues, hget, Option.map_some, halive]
  rfl

theorem untouched_buryDead (hliving : Living world.combatants id) :
    Untouched world (buryDead world) id := by
  obtain ⟨combatant, hget, halive⟩ := hliving
  refine ⟨?_, combatant, combatant, hget, get?_buryDead hget halive, rfl, rfl⟩
  intro slot hslot
  refine mem_foldl_remove.trans (and_iff_left fun hdead ↦ ?_)
  obtain ⟨found, hfound, hdies⟩ := World.mem_deadIds.mp hdead
  rw [hslot, hget, Option.some.injEq] at hfound
  rw [hfound, hdies] at halive
  exact nomatch halive

theorem living_buryDead : Living (buryDead world).combatants id ↔ Living world.combatants id :=
  (buryDead_passed world : Passed True world (buryDead world)).living_iff

def recoveredKey (elapsed recovery : ℕ) : ℕ := min (elapsed + recovery) rtClockMax

theorem recoveredKey_eq (elapsed recovery : ℕ) :
    min (saturatingAdd u64Max elapsed recovery) rtClockMax = recoveredKey elapsed recovery := by
  have hbound : rtClockMax ≤ u64Max := by decide
  unfold saturatingAdd recoveredKey
  omega

variable {order : StandingOrder} {key : ℕ}

theorem untouched_rekeyActor (hrekey : rekeyActor world actor order key = .ok next)
    (hne : id ≠ actor) (hget : world.combatants.get? id = some combatant) :
    Untouched world next id := by
  have hkeyed : Untouched world { world with timeline := world.timeline.insert key actor } id := by
    refine ⟨fun slot hslot ↦ ?_, combatant, combatant, hget, hget, rfl, rfl⟩
    show slot ∈ world.timeline.insert key actor ↔ _
    rw [Timeline.mem_insert]
    constructor
    · intro hmem
      exact hmem.elim (fun heq ↦ absurd (hslot.symm.trans (heq ▸ rfl)) hne) And.left
    · intro hmem
      exact Or.inr ⟨hmem, fun heq ↦ hne (hslot.symm.trans heq)⟩
  unfold rekeyActor at hrekey
  split_ifs at hrekey with halive hrepeats
  · obtain ⟨_, -, hnext⟩ := bind_eq_ok_iff.mp hrekey
    rw [← Result.ok.inj hnext]
    exact hkeyed
  · obtain ⟨_, -, hnext⟩ := bind_eq_ok_iff.mp hrekey
    rw [← Result.ok.inj hnext]
    exact hkeyed.trans (untouched_modifyCombatant hne _ hget)
  · rw [← Result.ok.inj hrekey]
    exact Untouched.refl hget

structure Recovered (world : World) (actor : EntityId) (order : StandingOrder) (key : ℕ) :
    Prop where
  key : ∀ slot : TurnKey, slot.entity = actor →
    (slot ∈ world.timeline ↔ slot = toLex ((key : ℤ), actor))
  order : ∃ combatant, world.combatants.get? actor = some combatant ∧
    combatant.order = if order.repeats then some order else none

theorem recovered_rekeyActor (hrekey : rekeyActor world actor order key = .ok next)
    (hget : world.combatants.get? actor = some combatant) (halive : combatant.dead = false)
    (horder : combatant.order = some order) : Recovered next actor order key := by
  have hlives : (world.combatants.get? actor).any (fun state ↦ !state.dead) = true := by
    rw [hget, Option.any_some, halive]
    rfl
  have hslots (slot : TurnKey) (hslot : slot.entity = actor) :
      slot ∈ world.timeline.insert key actor ↔ slot = toLex ((key : ℤ), actor) := by
    rw [Timeline.mem_insert]
    exact or_iff_left fun hother ↦ hother.2 hslot
  unfold rekeyActor at hrekey
  rw [if_pos hlives] at hrekey
  obtain ⟨_, -, hnext⟩ := bind_eq_ok_iff.mp hrekey
  dsimp only at hnext
  by_cases hrepeats : order.repeats = true
  · rw [if_pos hrepeats] at hnext
    rw [← Result.ok.inj hnext]
    exact ⟨hslots, combatant, hget, by rw [if_pos hrepeats, horder]⟩
  · rw [if_neg hrepeats] at hnext
    rw [← Result.ok.inj hnext]
    refine ⟨hslots, { combatant with order := none }, ?_, by rw [if_neg hrepeats]⟩
    show (world.combatants.modify actor _).get? actor = _
    rw [IndexMap.get?_modify_self, hget]
    rfl

theorem Recovered.later {final : World} (hrecovered : Recovered next actor order key)
    (hspared : Untouched next final actor) : Recovered final actor order key := by
  obtain ⟨hslots, combatant, hget, horder⟩ := hrecovered
  obtain ⟨hkey, old, new, hold, hnew, hsame, -⟩ := hspared
  rw [hget, Option.some.injEq] at hold
  subst hold
  exact ⟨fun slot hslot ↦ (hkey slot hslot).trans (hslots slot hslot), new, hnew,
    hsame.trans horder⟩

theorem recovered_of_resolved {hit : World}
    (hresolve : resolveUse world actor ability target = .ok (produced, hit))
    (hrekey : rekeyActor (buryDead hit) actor order key = .ok next)
    (hget : world.combatants.get? actor = some combatant) (horder : combatant.order = some order)
    (hliving : Living next.combatants actor) : Recovered next actor order key := by
  obtain ⟨_, _, _, combatants, heq, hkept, -⟩ := resolveUse_frame hresolve
  have hkept : Kept world.combatants hit.combatants := by rwa [heq]
  have hrekeyed : Passed True (buryDead hit) next := rekeyActor_passed hrekey
  obtain ⟨after, hafter, halive⟩ := living_buryDead.mp (hrekeyed.living_iff.mp hliving)
  obtain ⟨found, hfound, hkeeps⟩ := hkept.get?_eq_some' hget
  rw [hafter, Option.some.injEq] at hfound
  subst hfound
  exact recovered_rekeyActor hrekey (get?_buryDead hafter halive) halive
    (hkeeps.order.trans horder)

/-- The outcome of a resolution names its ability. -/
theorem resolveUse_ability
    (hresolve : resolveUse world actor ability target = .ok (produced, next)) :
    produced.ability = ability := by
  simp only [resolveUse, bind_ok_iff, pure_eq] at hresolve
  obtain ⟨_, -, _, -, _, -, _, -, _, -, _, -, _, -, _, -, hnext⟩ := hresolve
  rw [← (Prod.mk.inj (Result.ok.inj hnext)).1]

/-- A step of one actor: it touches no other combatant that survives it, brings nobody back, and
leaves the encounter. -/
structure Touches (before after : World) (actor : EntityId) : Prop where
  others : ∀ id, id ≠ actor → Living after.combatants id → Untouched before after id
  living : ∀ id, Living after.combatants id → Living before.combatants id
  combat : after.combat = before.combat

theorem touches_clearOrder (world : World) (actor : EntityId) :
    Touches world (world.modifyCombatant actor fun state ↦ { state with order := none }) actor := by
  have hordered : Passed True world _ := Passed.modifyOrder world actor none
  refine ⟨fun id hne hliving ↦ ?_, fun id ↦ hordered.living_iff.mp, rfl⟩
  obtain ⟨combatant, hget, -⟩ := hordered.living_iff.mp hliving
  exact untouched_modifyCombatant hne _ hget

theorem touches_resolved {hit : World}
    (hresolve : resolveUse world actor ability target = .ok (produced, hit))
    (hrekey : rekeyActor (buryDead hit) actor order key = .ok next) : Touches world next actor := by
  obtain ⟨_, _, _, combatants, heq, hkept, -⟩ := resolveUse_frame hresolve
  have hkept : Kept world.combatants hit.combatants := by rwa [heq]
  have hcombat : hit.combat = world.combat := by rw [heq]
  have hrekeyed : Passed True (buryDead hit) next := rekeyActor_passed hrekey
  refine ⟨fun id hne hliving ↦ ?_, fun id hliving ↦ ?_, ?_⟩
  · have hhit := living_buryDead.mp (hrekeyed.living_iff.mp hliving)
    obtain ⟨old, hold, -⟩ := living_of_kept hkept hhit
    obtain ⟨combatant, hget, halive⟩ := hhit
    have hresolved := untouched_resolveUse hresolve hne (IndexMap.mem_keys_iff.mpr ⟨old, hold⟩)
    have hburied := untouched_buryDead ⟨combatant, hget, halive⟩
    exact (hresolved.trans hburied).trans
      (untouched_rekeyActor hrekey hne (get?_buryDead hget halive))
  · exact living_of_kept hkept (living_buryDead.mp (hrekeyed.living_iff.mp hliving))
  · exact (rekeyActor_combat hrekey).trans hcombat

end Steps

/-! ### The pass -/

/-- The execution pass over a snapshot of due entries: from a world, over the entries that are left,
with the events that are still to come, to the world it ends in. -/
inductive Pass (elapsed roundTicks : ℕ) :
    World → List EntityId → List TickEvent → World → Prop
  | done (world : World) : Pass elapsed roundTicks world [] [] world
  | stopped {world : World} {due : List EntityId} (few : world.rtAlive < 2) :
      Pass elapsed roundTicks world due [] world
  | gone {world final : World} {id : EntityId} {due : List EntityId} {events : List TickEvent}
      (two : 2 ≤ world.rtAlive) (dead : ¬Living world.combatants id)
      (rest : Pass elapsed roundTicks world due events final) :
      Pass elapsed roundTicks world (id :: due) events final
  | waits {world final : World} {id : EntityId} {due : List EntityId} {events : List TickEvent}
      {combatant : Combatant} (two : 2 ≤ world.rtAlive)
      (found : world.combatants.get? id = some combatant) (alive : combatant.dead = false)
      (idle : combatant.order = none) (rest : Pass elapsed roundTicks world due events final) :
      Pass elapsed roundTicks world (id :: due) events final
  | ends {world final : World} {id : EntityId} {due : List EntityId} {events : List TickEvent}
      {combatant : Combatant} {order : StandingOrder} {error : CombatError}
      (two : 2 ≤ world.rtAlive) (found : world.combatants.get? id = some combatant)
      (alive : combatant.dead = false) (standing : combatant.order = some order)
      (rejected : validateAction world (.useAbility id order.ability order.target) = .err error)
      (rest : Pass elapsed roundTicks
        (world.modifyCombatant id fun state ↦ { state with order := none }) due events final) :
      Pass elapsed roundTicks world (id :: due) (.orderEnded id :: events) final
  | resolves {world hit next final : World} {id : EntityId} {due : List EntityId}
      {events : List TickEvent} {combatant : Combatant} {order : StandingOrder}
      {combat : CombatState} {entry : AbilityDefinition} {produced : ActionOutcome}
      (two : 2 ≤ world.rtAlive) (found : world.combatants.get? id = some combatant)
      (alive : combatant.dead = false) (standing : combatant.order = some order)
      (accepted : validateAction world (.useAbility id order.ability order.target) = .ok ())
      (encounter : world.combat = some combat)
      (listed : abilityEntry combat.definition order.ability = some entry)
      (resolved : resolveUse world id order.ability order.target = .ok (produced, hit))
      (settled : rekeyActor (buryDead hit) id order
        (recoveredKey elapsed (entry.recoveryTicks.getD roundTicks)) = .ok next)
      (rest : Pass elapsed roundTicks next due events final) :
      Pass elapsed roundTicks world (id :: due) (.resolved produced :: events) final

/-- With fewer than two alive the pass changes nothing more. -/
theorem foldlM_executeDue_few {elapsed roundTicks : ℕ} {state : List TickEvent × World}
    (hfew : state.2.rtAlive < 2) (due : List EntityId) :
    Result.foldlM (executeDue elapsed roundTicks) state due = .ok state := by
  induction due with
  | nil => rfl
  | cons id rest ih =>
    have hstep : executeDue elapsed roundTicks state id = .ok state := by
      unfold executeDue
      rw [if_pos hfew]
    rw [Result.foldlM, hstep]
    exact ih

variable {combat : CombatState}

/-- The loop of the execution stage is a pass. Assumes: a real-time schedule, in which the
combatants that are scheduled are the living ones. -/
theorem pass_of_foldlM {elapsed roundTicks : ℕ} {due : List EntityId}
    {state final : List TickEvent × World} (hreal : RealTimeSchedule state.2 combat)
    (hfold : Result.foldlM (executeDue elapsed roundTicks) state due = .ok final) :
    ∃ events, final.1 = state.1 ++ events ∧ Pass elapsed roundTicks state.2 due events final.2 := by
  induction due generalizing state with
  | nil =>
    rw [← Result.ok.inj hfold]
    exact ⟨[], (List.append_nil _).symm, .done state.2⟩
  | cons id rest ih =>
    by_cases hfew : state.2.rtAlive < 2
    · rw [foldlM_executeDue_few hfew] at hfold
      rw [← Result.ok.inj hfold]
      exact ⟨[], (List.append_nil _).symm, .stopped hfew⟩
    obtain ⟨middle, hmiddle, hrest⟩ := bind_eq_ok_iff.mp hfold
    have hnext : RealTimeSchedule middle.2 combat := by
      rcases executeDue_cases hmiddle with rfl | ⟨_, _, _, _, -, hexecute, rfl⟩
      · exact hreal
      · exact (executeOrder_realTime hreal hexecute).1
    obtain ⟨events, hevents, hpass⟩ := ih hnext hrest
    have htwo : 2 ≤ state.2.rtAlive := not_lt.mp hfew
    have hsame (hkept : state = middle) (hdead : ¬Living state.2.combatants id) :
        ∃ events, final.1 = state.1 ++ events ∧
          Pass elapsed roundTicks state.2 (id :: rest) events final.2 := by
      rw [← hkept] at hevents hpass
      exact ⟨events, hevents, .gone htwo hdead hpass⟩
    unfold executeDue at hmiddle
    rw [if_neg hfew] at hmiddle
    split at hmiddle
    · next hnone =>
      refine hsame (Result.ok.inj hmiddle) fun hliving ↦ ?_
      obtain ⟨combatant, hget, -⟩ := hliving
      exact nomatch hnone.symm.trans hget
    · next combatant hget =>
      by_cases hgone : combatant.dead = true ∨ state.2.timeline.contains id = false
      · rw [if_pos hgone] at hmiddle
        refine hsame (Result.ok.inj hmiddle) fun hliving ↦ ?_
        have hscheduled := (hreal.scheduled id).mpr hliving
        obtain ⟨found, hfound, halive⟩ := hliving
        rw [hget, Option.some.injEq] at hfound
        rw [hfound, halive, hscheduled] at hgone
        exact hgone.elim nofun nofun
      rw [if_neg hgone] at hmiddle
      have halive : combatant.dead = false := Bool.eq_false_iff.mpr fun hdead ↦ hgone (Or.inl hdead)
      split at hmiddle
      · next horder =>
        rw [← Result.ok.inj hmiddle] at hevents hpass
        exact ⟨events, hevents, .waits htwo hget halive horder hpass⟩
      · next order horder =>
        obtain ⟨⟨event, after⟩, hexecute, hpair⟩ := bind_eq_ok_iff.mp hmiddle
        rw [← Result.ok.inj hpair] at hevents hpass
        refine ⟨event :: events, by rw [hevents, List.append_assoc]; rfl, ?_⟩
        unfold executeOrder at hexecute
        split at hexecute
        · exact nomatch hexecute
        · next error hrejected =>
          obtain ⟨rfl, rfl⟩ := Prod.mk.inj (Result.ok.inj hexecute)
          exact .ends htwo hget halive horder hrejected hpass
        · next haccepted =>
          simp only [bind_ok_iff, pure_ok_iff, Result.expect_eq_ok_iff, Prod.mk.injEq] at hexecute
          obtain ⟨encounter, hencounter, entry, hentry, ⟨produced, hit⟩, hresolve, settled,
            hsettled, rfl, rfl⟩ := hexecute
          rw [recoveredKey_eq] at hsettled
          exact .resolves htwo hget halive horder haccepted hencounter hentry hresolve hsettled
            hpass

/-! ### What a pass leaves -/

section Reports

variable {elapsed roundTicks : ℕ} {combat : CombatState} {world middle final : World}
  {id : EntityId} {due : List EntityId} {events : List TickEvent}

/-- An ended order: it stood at the start, and a survivor lost it and nothing else. -/
def EndedBy (world final : World) (id : EntityId) : Prop :=
  ∃ old order, world.combatants.get? id = some old ∧ old.dead = false ∧ old.order = some order ∧
    (Living final.combatants id → SameKey world final id ∧
      ∃ new, final.combatants.get? id = some new ∧ new.order = none ∧ new.pools = old.pools)

/-- A resolved order: it stood at the start, and a survivor recovers after it. -/
def ResolvedBy (elapsed roundTicks : ℕ) (combat : CombatState) (world final : World)
    (produced : ActionOutcome) : Prop :=
  ∃ old order entry, world.combatants.get? produced.actor = some old ∧ old.dead = false ∧
    old.order = some order ∧ produced.ability = order.ability ∧ produced.target = order.target ∧
    abilityEntry combat.definition order.ability = some entry ∧
    (Living final.combatants produced.actor → Recovered final produced.actor order
      (recoveredKey elapsed (entry.recoveryTicks.getD roundTicks)))

/-- What an event of a pass says of its actor, from the start of the pass to its end. -/
def TickEvent.Told (elapsed roundTicks : ℕ) (combat : CombatState) (world final : World) :
    TickEvent → Prop
  | .resolved produced => ResolvedBy elapsed roundTicks combat world final produced
  | .orderEnded id => EndedBy world final id

/-- What a pass leaves: its events name distinct due actors in their order; unless it stopped, every
due combatant acted, died or had no order; whoever did not act and survives is untouched; and every
event tells the fate of its actor. -/
structure Report (elapsed roundTicks : ℕ) (combat : CombatState) (world : World)
    (due : List EntityId) (events : List TickEvent) (final : World) : Prop where
  order : (events.map TickEvent.actor).Sublist due
  complete : 2 ≤ final.rtAlive → ∀ id ∈ due, id ∈ events.map TickEvent.actor ∨
    ¬Living final.combatants id ∨
      ∃ combatant, world.combatants.get? id = some combatant ∧ combatant.order = none
  untouched : ∀ id, id ∉ events.map TickEvent.actor → Living final.combatants id →
    Untouched world final id
  living : ∀ id, Living final.combatants id → Living world.combatants id
  told : ∀ event ∈ events, event.Told elapsed roundTicks combat world final

/-- The combatant at the start behind a living one after a step of another. -/
theorem Touches.before (htouches : Touches world middle id) {other : EntityId}
    (hne : other ≠ id) {combatant : Combatant}
    (hget : middle.combatants.get? other = some combatant) (halive : combatant.dead = false) :
    SameKey world middle other ∧ ∃ old, world.combatants.get? other = some old ∧
      old.dead = false ∧ combatant.order = old.order ∧ combatant.pools = old.pools := by
  have hliving : Living middle.combatants other := ⟨combatant, hget, halive⟩
  obtain ⟨hkey, old, new, hold, hnew, horder, hpools⟩ := htouches.others other hne hliving
  rw [hget, Option.some.injEq] at hnew
  subst hnew
  obtain ⟨found, hfound, hlives⟩ := htouches.living other hliving
  rw [hold, Option.some.injEq] at hfound
  exact ⟨hkey, old, hold, hfound ▸ hlives, horder, hpools⟩

/-- What an event tells from a later start it tells from the step before, if another acted there. -/
theorem TickEvent.Told.before {event : TickEvent} (htouches : Touches world middle id)
    (htold : event.Told elapsed roundTicks combat middle final) (hne : event.actor ≠ id) :
    event.Told elapsed roundTicks combat world final := by
  cases event with
  | orderEnded actor =>
    obtain ⟨old, order, hget, halive, horder, hfate⟩ := htold
    obtain ⟨hkey, first, hfirst, hlives, hsame, hpools⟩ := htouches.before hne hget halive
    refine ⟨first, order, hfirst, hlives, hsame.symm.trans horder, fun hliving ↦ ?_⟩
    obtain ⟨hlater, new, hnew, hnone, hkept⟩ := hfate hliving
    exact ⟨fun slot hslot ↦ (hlater slot hslot).trans (hkey slot hslot), new, hnew, hnone,
      hkept.trans hpools⟩
  | resolved produced =>
    obtain ⟨old, order, entry, hget, halive, horder, hability, htarget, hentry, hfate⟩ := htold
    obtain ⟨-, first, hfirst, hlives, hsame, -⟩ := htouches.before hne hget halive
    exact ⟨first, order, entry, hfirst, hlives, hsame.symm.trans horder, hability, htarget, hentry,
      hfate⟩

/-- A step of an actor before a pass in which it does not act again. -/
theorem Report.cons {event : TickEvent} (hactor : event.actor = id) (hfresh : id ∉ due)
    (htouches : Touches world middle id)
    (hreport : Report elapsed roundTicks combat middle due events final)
    (htold : event.Told elapsed roundTicks combat world final) :
    Report elapsed roundTicks combat world (id :: due) (event :: events) final := by
  have hnames : (event :: events).map TickEvent.actor = id :: events.map TickEvent.actor := by
    rw [List.map_cons, hactor]
  have hlater (other : TickEvent) (hmem : other ∈ events) : other.actor ≠ id := by
    intro hsame
    have hmapped := List.mem_map_of_mem (f := TickEvent.actor) hmem
    rw [hsame] at hmapped
    exact hfresh (hreport.order.subset hmapped)
  refine ⟨?_, fun htwo other hmem ↦ ?_, fun other hnot hliving ↦ ?_, fun other hliving ↦ ?_,
    fun other hmem ↦ ?_⟩
  · rw [hnames]
    exact hreport.order.cons_cons id
  · rw [hnames]
    by_cases hsame : other = id
    · exact Or.inl (hsame ▸ List.mem_cons_self ..)
    have hdue := (List.mem_cons.mp hmem).resolve_left hsame
    rcases hreport.complete htwo other hdue with hacted | hdead | ⟨combatant, hget, hidle⟩
    · exact Or.inl (List.mem_cons_of_mem _ hacted)
    · exact Or.inr (Or.inl hdead)
    · by_cases hdead : combatant.dead = true
      · refine Or.inr (Or.inl fun hliving ↦ ?_)
        obtain ⟨found, hfound, halive⟩ := hreport.living other hliving
        rw [hget, Option.some.injEq] at hfound
        rw [hfound, halive] at hdead
        exact nomatch hdead
      · obtain ⟨-, old, hold, -, horder, -⟩ :=
          htouches.before hsame hget (Bool.eq_false_iff.mpr hdead)
        exact Or.inr (Or.inr ⟨old, hold, horder.symm.trans hidle⟩)
  · rw [hnames, List.mem_cons, not_or] at hnot
    exact (htouches.others other hnot.1 (hreport.living other hliving)).trans
      (hreport.untouched other hnot.2 hliving)
  · exact htouches.living other (hreport.living other hliving)
  · rcases List.mem_cons.mp hmem with rfl | hrest
    · exact htold
    · exact (hreport.told other hrest).before htouches (hlater other hrest)

/-- An entry that is passed over. -/
theorem Report.pass (hreport : Report elapsed roundTicks combat world due events final)
    (hidle : ¬Living final.combatants id ∨
      ∃ combatant, world.combatants.get? id = some combatant ∧ combatant.order = none) :
    Report elapsed roundTicks combat world (id :: due) events final := by
  refine ⟨hreport.order.cons id, fun htwo other hmem ↦ ?_, hreport.untouched, hreport.living,
    hreport.told⟩
  by_cases hsame : other = id
  · rw [hsame]
    exact Or.inr hidle
  · exact hreport.complete htwo other ((List.mem_cons.mp hmem).resolve_left hsame)

/-- A pass that acts no more. -/
theorem Report.nil (world : World) (hcomplete : 2 ≤ world.rtAlive → due = []) :
    Report elapsed roundTicks combat world due [] world := by
  refine ⟨List.nil_sublist _, fun htwo id hmem ↦ ?_, fun id _ hliving ↦ ?_, fun _ ↦ id, nofun⟩
  · rw [hcomplete htwo] at hmem
    exact nomatch hmem
  · exact hliving.elim fun _ hfound ↦ Untouched.refl hfound.1

theorem Pass.report (hpass : Pass elapsed roundTicks world due events final)
    (hcombat : world.combat = some combat) (hnodup : due.Nodup) :
    Report elapsed roundTicks combat world due events final := by
  induction hpass with
  | done world => exact Report.nil world fun _ ↦ rfl
  | stopped few => exact Report.nil _ fun htwo ↦ absurd few (not_lt.mpr htwo)
  | gone _ dead _ ih =>
    have hreport := ih hcombat (List.nodup_cons.mp hnodup).2
    exact hreport.pass (Or.inl fun hliving ↦ dead (hreport.living _ hliving))
  | waits _ found _ idle _ ih =>
    have hreport := ih hcombat (List.nodup_cons.mp hnodup).2
    exact hreport.pass (Or.inr ⟨_, found, idle⟩)
  | @ends world final id due events combatant order error _ found alive standing _ _ ih =>
    obtain ⟨hfresh, hrest⟩ := List.nodup_cons.mp hnodup
    have hreport := ih hcombat hrest
    refine Report.cons rfl hfresh (touches_clearOrder world id) hreport ?_
    refine ⟨combatant, order, found, alive, standing, fun hliving ↦ ?_⟩
    obtain ⟨hkey, old, new, hold, hnew, horder, hpools⟩ := hreport.untouched id
      (fun hmem ↦ hfresh (hreport.order.subset hmem)) hliving
    have hcleared : (world.modifyCombatant id fun state ↦
        { state with order := none }).combatants.get? id =
        some { combatant with order := none } := by
      rw [World.modifyCombatant, IndexMap.get?_modify_self, found]
      rfl
    rw [hcleared, Option.some.injEq] at hold
    subst hold
    exact ⟨hkey, new, hnew, horder, hpools⟩
  | @resolves world hit next final id due events combatant order encounter entry produced _ found
      alive standing _ hencounter listed resolved settled _ ih =>
    obtain ⟨hfresh, hrest⟩ := List.nodup_cons.mp hnodup
    have htouches := touches_resolved resolved settled
    have hreport := ih (htouches.combat.trans hcombat) hrest
    have hnames := resolveUse_names resolved
    rw [hcombat, Option.some.injEq] at hencounter
    subst hencounter
    refine Report.cons hnames.1.1 hfresh htouches hreport ?_
    refine ⟨combatant, order, entry, hnames.1.1 ▸ found, alive, standing,
      resolveUse_ability resolved, hnames.2.1, listed, ?_⟩
    rw [hnames.1.1]
    intro hliving
    have hspared := hreport.untouched id (fun hmem ↦ hfresh (hreport.order.subset hmem)) hliving
    exact (recovered_of_resolved resolved settled found standing
      (hreport.living id hliving)).later hspared

end Reports

/-! ### The stage -/

theorem dueEntities_eq (world : World) (elapsed : ℕ) :
    ∃ slots : List TurnKey, slots.Pairwise (· < ·) ∧
      (∀ slot, slot ∈ slots ↔ slot ∈ world.timeline ∧ slot.key ≤ (elapsed : ℤ)) ∧
      dueEntities world elapsed = slots.map TurnKey.entity := by
  refine ⟨world.timeline.iter.filter fun slot ↦ slot.key ≤ (elapsed : ℤ), ?_, fun slot ↦ ?_, rfl⟩
  · have hsorted : world.timeline.iter.Pairwise (· < ·) := world.timeline.entries.pairwise_keys
    exact hsorted.filter _
  · rw [List.mem_filter, decide_eq_true_eq]
    rfl

theorem nodup_dueEntities (world : World) (elapsed : ℕ) : (dueEntities world elapsed).Nodup :=
  world.timeline.unique.sublist (List.filter_sublist.map TurnKey.entity)

/-- The end that a pass reports: one, when it leaves fewer than two alive. -/
def passEnd (combat : CombatState) (final : World) (before : TransitionFacts) : TransitionFacts :=
  if final.rtAlive < 2 then
    { before with encounterEnded := some (combat.definition.encounter, combat.round) }
  else before

variable {world : World}

theorem executionStage_pass {next : World} {clock : EncounterClock} {before : TransitionFacts}
    {facts : TickFacts} (hcombat : world.combat = some combat)
    (hclock : combat.clock = some clock) (hreal : RealTimeSchedule world combat)
    (hrunning : rtRunning world = true) (hstage : executionStage world before = .ok (facts, next)) :
    Pass clock.elapsed clock.roundTicks world (dueEntities world clock.elapsed) facts.events next ∧
      RealTimeSchedule next combat ∧ next.combat = some combat ∧
      facts.transitions = passEnd combat next before := by
  obtain ⟨⟨hlast, hstill⟩, hended⟩ := executionStage_induct
    (motive := fun _ state ↦ RealTimeSchedule state combat ∧ state.combat = some combat)
    ⟨hreal, hcombat⟩ (fun _ _ _ _ _ _ _ _ hstate _ _ hexecute ↦
      (executeOrder_realTime hstate.1 hexecute).imp_right fun hsame ↦ hsame.trans hstate.2) hstage
  refine ⟨?_, hlast, hstill, ?_⟩
  · unfold executionStage at hstage
    rw [if_pos hrunning] at hstage
    simp only [hcombat, hclock, Result.expect_some, Result.bind_eq, ok_bind, pure_eq,
      bind_eq_ok_iff] at hstage
    obtain ⟨executed, hfold, hstage⟩ := hstage
    obtain ⟨events, hevents, hpass⟩ := pass_of_foldlM hreal hfold
    rw [List.nil_append] at hevents
    subst hevents
    split_ifs at hstage
    · obtain ⟨_, -, hnext⟩ := bind_eq_ok_iff.mp hstage
      cases hnext
      exact hpass
    · cases hstage
      exact hpass
  · rcases hended with ⟨hsame, halive⟩ | ⟨hfew, after, hafter, hended⟩
    · exact hsame.trans (if_neg (not_lt.mpr (halive hrunning))).symm
    · rw [← Option.some.inj (hstill.symm.trans hafter)] at hended
      exact hended.trans (if_pos hfew).symm

theorem tickTracked_bound {clock : EncounterClock} (hcombat : world.combat = some combat)
    (hclock : combat.clock = some clock) (hbound : rtClockMax ≤ clock.elapsed) :
    tickTracked world = .ok (⟨TransitionFacts.none, []⟩, world.advanceTick) := by
  have hstill : rtRunning world.advanceTick = false := by
    rw [Bool.eq_false_iff]
    intro hrunning
    obtain ⟨found, running, hfound, -, hrun, hbelow, -⟩ := rtRunning_iff.mp hrunning
    have hsame : some combat = some found := hcombat.symm.trans hfound
    rw [Option.some.injEq] at hsame
    rw [← hsame, hclock, Option.some.injEq] at hrun
    rw [← hrun] at hbelow
    exact absurd hbelow (not_lt.mpr hbound)
  have hidle : ¬rtRunning world.advanceTick = true := by
    rw [hstill]
    exact Bool.false_ne_true
  have hclockStage : clockStage world.advanceTick =
      .ok (TransitionFacts.none, world.advanceTick) := by
    unfold clockStage
    rw [if_neg hidle]
  rw [tickTracked, hclockStage, ok_bind, executionStage, if_neg hidle]

/-! ### Loaded worlds -/

/-- The checks of the world loader on a real-time schedule: nobody is active, the scheduled are
living combatants and as many as there are, no key is negative, and only the living hold orders. -/
def realTimeLoaded (world : World) (combat : CombatState) : Bool :=
  combat.active.isNone &&
    world.timeline.iter.all (fun slot ↦
      (world.combatants.get? slot.entity).any fun combatant ↦ !combatant.dead) &&
    decide (world.timeline.iter.length = world.rtAlive) &&
    world.timeline.iter.all (fun slot ↦ decide (0 ≤ slot.key)) &&
    world.combatants.values.all fun combatant ↦ combatant.order.isNone || !combatant.dead

theorem realTimeSchedule_of_loaded (hloaded : realTimeLoaded world combat = true) :
    RealTimeSchedule world combat := by
  simp only [realTimeLoaded, Bool.and_eq_true, Option.isNone_iff_eq_none, List.all_eq_true,
    decide_eq_true_eq, Option.any_eq_true, Bool.not_eq_true', Bool.or_eq_true] at hloaded
  obtain ⟨⟨⟨⟨hactive, hscheduled⟩, hcount⟩, hkeys⟩, horders⟩ := hloaded
  have hliving : ScheduledLiving world.timeline world.combatants :=
    fun slot hslot ↦ hscheduled slot hslot
  have hsubset : world.timeline.iter.map TurnKey.entity ⊆ world.aliveInStore := by
    intro id hid
    obtain ⟨slot, hslot, rfl⟩ := List.mem_map.mp hid
    exact World.mem_aliveInStore.mpr (hliving slot hslot)
  have hperm : (world.timeline.iter.map TurnKey.entity).Perm world.aliveInStore := by
    refine (world.timeline.unique.subperm hsubset).perm_of_length_le ?_
    rw [List.length_map]
    exact hcount.ge
  refine ⟨hactive, fun id ↦ ?_, hkeys, fun id combatant hget horder ↦ ?_⟩
  · rw [← World.mem_aliveInStore, ← hperm.mem_iff, List.mem_map, Timeline.contains_iff]
    rfl
  · have hchecked := horders combatant (IndexMap.mem_values_iff.mpr ⟨id, hget⟩)
    exact hchecked.resolve_left fun hnone ↦ by
      rw [hnone] at horder
      cases horder

/-! ### Main results -/

/-- The execution pass of every scheduled real-time encounter: it acts on the entries due at its
start in ascending order, each at most once, until fewer than two are alive; it leaves whoever did
not act and survives untouched, keeps the schedule and reports at most one end. Reachable and loaded
worlds are scheduled, and at the bound of the clock a tick only counts. -/
theorem execution_pass : (∀ world next combat clock before facts, world.combat = some combat →
      combat.mode = .realTime → combat.clock = some clock → clock.elapsed < rtClockMax →
      2 ≤ world.rtAlive → RealTimeSchedule world combat →
      executionStage world before = .ok (facts, next) →
      (∃ slots : List TurnKey, slots.Pairwise (· < ·) ∧
        (∀ slot, slot ∈ slots ↔ slot ∈ world.timeline ∧ slot.key ≤ (clock.elapsed : ℤ)) ∧
        Pass clock.elapsed clock.roundTicks world (slots.map TurnKey.entity) facts.events next ∧
        Report clock.elapsed clock.roundTicks combat world (slots.map TurnKey.entity) facts.events
          next) ∧ RealTimeSchedule next combat ∧ next.combat = some combat ∧
      facts.transitions = passEnd combat next before) ∧
    (∀ world combat before, world.combat = some combat → world.rtAlive < 2 →
      executionStage world before = .ok (⟨before, []⟩, world)) ∧
    (∀ world combat clock, world.combat = some combat → combat.clock = some clock →
      rtClockMax ≤ clock.elapsed →
      tickTracked world = .ok (⟨TransitionFacts.none, []⟩, world.advanceTick)) ∧
    (∀ world staged facts combat, Reachable world →
      clockStage world.advanceTick = .ok (facts, staged) → staged.combat = some combat →
      combat.mode = .realTime → RealTimeSchedule staged combat) ∧
    ∀ world combat, realTimeLoaded world combat = true → RealTimeSchedule world combat := by
  refine ⟨?_, ?_, fun world combat clock hcombat hclock hbound ↦
    tickTracked_bound hcombat hclock hbound, ?_, fun world combat hloaded ↦
    realTimeSchedule_of_loaded hloaded⟩
  · intro world next combat clock before facts hcombat hmode hclock hbelow halive hreal hstage
    have hrunning : rtRunning world = true :=
      rtRunning_iff.mpr ⟨combat, clock, hcombat, hmode, hclock, hbelow, halive⟩
    obtain ⟨hpass, hkept⟩ := executionStage_pass hcombat hclock hreal hrunning hstage
    obtain ⟨slots, hsorted, hmem, hdue⟩ := dueEntities_eq world clock.elapsed
    have hreport := hpass.report hcombat (nodup_dueEntities world clock.elapsed)
    rw [hdue] at hpass hreport
    exact ⟨⟨slots, hsorted, hmem, hpass, hreport⟩, hkept⟩
  · intro world combat before hcombat hfew
    have hidle : ¬rtRunning world = true := by
      intro hrunning
      obtain ⟨_, _, -, -, -, -, htwo⟩ := rtRunning_iff.mp hrunning
      exact absurd hfew (not_lt.mpr htwo)
    rw [executionStage, if_neg hidle]
  · intro world staged facts combat hreachable hclock hcombat hmode
    have hticked : Coherent world.advanceTick :=
      (coherent_of_reachable hreachable).congr rfl rfl rfl
    exact ((clockStage_coherent hticked hclock).scheduled combat hcombat).realTime hmode

/-! ### A skirmish -/

def scratchAbility : Ability :=
  { duelAbility with id := 6, damage := [⟨.success, 1, none⟩] }

/-- The duel with a clock and a second ability. -/
def skirmishSpec : EncounterSpec :=
  { duelSpec with
    ruleset := { duelRuleset with abilities := [3, 6], roundTicks := some 10 }
    abilities := (BTreeMap.empty.insert 3 duelAbility).insert 6 scratchAbility }

/-- The second scratches in the first tick; then the first strikes in the second one. -/
def skirmish : Result CombatError (World × World) := do
  let started ← startEncounterInModeTracked (World.new 0) skirmishSpec .realTime
  let scratching ← performActionTracked started.2 (.useAbility ⟨1, 1⟩ 6 ⟨0, 1⟩)
  let scratched ← tickTracked scratching.2
  let striking ← performActionTracked scratched.2 (.useAbility ⟨0, 1⟩ 3 ⟨1, 1⟩)
  let staged ← clockStage striking.2.advanceTick
  let struck ← executionStage staged.2 staged.1
  pure (staged.2, struck.2)

/-- The first strikes the second down before the second is due. -/
def StruckDown (world next : World) : Bool :=
  (world.combat.any fun combat ↦ combat.mode = .realTime && combat.clock.any fun clock ↦
    decide (⟨1, 1⟩ ∉ dueEntities world clock.elapsed)) &&
    world.timeline.contains ⟨1, 1⟩ && !next.timeline.contains ⟨1, 1⟩

/-- A combatant that is not due keeps its key. -/
theorem undue_key_lost : ¬∀ world staged next before facts combat clock id, Reachable world →
    clockStage world.advanceTick = .ok (before, staged) → staged.combat = some combat →
    combat.mode = .realTime → combat.clock = some clock →
    executionStage staged before = .ok (facts, next) →
    id ∉ dueEntities staged clock.elapsed → SameKey staged next id := by
  intro hclaim
  obtain ⟨⟨staged, next⟩, hrun, hstruck⟩ := isOkAnd_iff.mp
    (show skirmish.isOkAnd (fun worlds ↦ StruckDown worlds.1 worlds.2) = true by decide +kernel)
  simp only [skirmish, bind_ok_iff, pure_ok_iff, Prod.mk.injEq] at hrun
  obtain ⟨started, hstart, scratching, hscratching, scratched, hscratched, striking, hstriking,
    ⟨before, middle⟩, hclock, ⟨facts, struck⟩, hstage, rfl, rfl⟩ := hrun
  have hreachable : Reachable striking.2 :=
    .perform (.tick (.perform (.start (.new 0) hstart trivial) hscratching) hscratched) hstriking
  simp only [StruckDown, Bool.and_eq_true, Option.any_eq_true, decide_eq_true_eq,
    Bool.not_eq_true'] at hstruck
  obtain ⟨⟨⟨combat, hcombat, hmode, clock, hrunning, hundue⟩, hheld⟩, hlost⟩ := hstruck
  have hsame := hclaim striking.2 middle struck before facts combat clock ⟨1, 1⟩ hreachable hclock
    hcombat hmode hrunning hstage hundue
  obtain ⟨slot, hslot, hentity⟩ := Timeline.contains_iff.mp hheld
  have hstill := Timeline.contains_iff.mpr ⟨slot, (hsame slot hentity).mpr hslot, hentity⟩
  rw [hlost] at hstill
  exact nomatch hstill

/-- The strike of the skirmish is a pass that leaves the schedule. -/
theorem skirmish_pass : ∃ world next combat clock facts, world.combat = some combat ∧
    combat.clock = some clock ∧ RealTimeSchedule next combat ∧
    ∃ due, Pass clock.elapsed clock.roundTicks world due facts next := by
  obtain ⟨⟨staged, next⟩, hrun, hrunning⟩ := isOkAnd_iff.mp
    (show skirmish.isOkAnd (fun worlds ↦ rtRunning worlds.1) = true by decide +kernel)
  simp only [skirmish, bind_ok_iff, pure_ok_iff, Prod.mk.injEq] at hrun
  obtain ⟨started, hstart, scratching, hscratching, scratched, hscratched, striking, hstriking,
    ⟨before, middle⟩, hclock, ⟨facts, struck⟩, hstage, rfl, rfl⟩ := hrun
  have hreachable : Reachable striking.2 :=
    .perform (.tick (.perform (.start (.new 0) hstart trivial) hscratching) hscratched) hstriking
  obtain ⟨combat, clock, hcombat, hmode, hclocked, hbelow, halive⟩ := rtRunning_iff.mp hrunning
  have hreal := execution_pass.2.2.2.1 striking.2 middle before combat hreachable hclock hcombat
    hmode
  obtain ⟨⟨slots, -, -, hpass, -⟩, hkept, -⟩ := execution_pass.1 middle struck combat clock before
    facts hcombat hmode hclocked hbelow halive hreal hstage
  exact ⟨middle, struck, combat, clock, facts.events, hcombat, hclocked, hkept, _, hpass⟩

end Crpg.Sim
