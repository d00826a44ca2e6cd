import Crpg.Sim.Frame

/-!
# The schedule of an encounter

Who is scheduled, who holds the turn and who holds an order. `Scheduled` says it of one encounter in
either mode: in turn-based play the active combatant is the head of the timeline, the timeline names
living combatants only and nobody holds an order; in real-time play nobody is active, the timeline
holds exactly the living at keys that are not negative, and only the living hold orders. `Coherent`
adds that without an encounter nobody fights and nothing is scheduled.

Each mutator keeps `Coherent`, and by induction over the operations it holds of every reachable
world (`coherent_of_reachable`). The turn rests on `Settling`, what holds after the head left the
timeline and before the next turn starts.
-/

set_option autoImplicit false

namespace Crpg.Sim

open Crpg.Core Crpg.Lib Crpg.Rules Crpg.Data
open Result (bind_eq bind_eq_ok_iff expect_eq_ok_iff expect_some ok_bind pure_eq)
open Timeline (contains_iff mem_insert mem_remove)

/-! ### The living and their orders -/

def Living (store : ComponentStore Combatant) (id : EntityId) : Prop :=
  ∃ combatant, store.get? id = some combatant ∧ combatant.dead = false

/-- Nobody holds an order. -/
def NoOrders (store : ComponentStore Combatant) : Prop :=
  ∀ id combatant, store.get? id = some combatant → combatant.order = none

def OrdersLiving (store : ComponentStore Combatant) : Prop :=
  ∀ id combatant, store.get? id = some combatant → combatant.order.isSome = true →
    combatant.dead = false

def ScheduledLiving (timeline : Timeline) (store : ComponentStore Combatant) : Prop :=
  ∀ slot ∈ timeline, Living store slot.entity

section Stores

variable {before after : ComponentStore Combatant} {id : EntityId}

theorem living_of_kept (hkept : Kept before after) (hliving : Living after id) :
    Living before id := by
  obtain ⟨combatant, hget, halive⟩ := hliving
  obtain ⟨old, hold, hkeeps⟩ := hkept.get?_eq_some hget
  refine ⟨old, hold, ?_⟩
  by_contra hdead
  rw [Bool.not_eq_false] at hdead
  rw [hkeeps.dead hdead] at halive
  cases halive

theorem living_iff_of_stood (hstood : Stood before after) : Living after id ↔ Living before id := by
  refine ⟨living_of_kept hstood.kept, fun ⟨combatant, hget, halive⟩ ↦ ?_⟩
  obtain ⟨new, hnew, hstands⟩ := hstood.get?_eq_some' hget
  exact ⟨new, hnew, hstands.alive.trans halive⟩

theorem noOrders_of_kept (hkept : Kept before after) (horders : NoOrders before) :
    NoOrders after := by
  intro id combatant hget
  obtain ⟨old, hold, hkeeps⟩ := hkept.get?_eq_some hget
  exact hkeeps.order.trans (horders id old hold)

theorem ordersLiving_of_stood (hstood : Stood before after) (horders : OrdersLiving before) :
    OrdersLiving after := by
  intro id combatant hget horder
  obtain ⟨old, hold, hstands⟩ := hstood.get?_eq_some hget
  rw [hstands.order] at horder
  exact hstands.alive.trans (horders id old hold horder)

theorem ordersLiving_of_noOrders (horders : NoOrders before) : OrdersLiving before := by
  intro id combatant hget horder
  rw [horders id combatant hget] at horder
  cases horder

theorem scheduledLiving_of_stood {timeline : Timeline} (hstood : Stood before after)
    (hliving : ScheduledLiving timeline before) : ScheduledLiving timeline after :=
  fun slot hslot ↦ (living_iff_of_stood hstood).mpr (hliving slot hslot)

variable {removed : EntityId}

theorem living_shiftRemove :
    Living (before.shiftRemove removed) id ↔ Living before id ∧ id ≠ removed := by
  unfold Living
  rw [IndexMap.get?_shiftRemove]
  by_cases hid : id = removed
  · simp [hid]
  · simp [hid]

theorem noOrders_shiftRemove (horders : NoOrders before) :
    NoOrders (before.shiftRemove removed) := by
  intro id combatant hget
  rw [IndexMap.get?_shiftRemove] at hget
  split_ifs at hget
  exact horders id combatant hget

theorem ordersLiving_shiftRemove (horders : OrdersLiving before) :
    OrdersLiving (before.shiftRemove removed) := by
  intro id combatant hget
  rw [IndexMap.get?_shiftRemove] at hget
  split_ifs at hget
  exact horders id combatant hget

end Stores

/-! ### Counting the living -/

namespace World

variable {world : World} {id : EntityId}

theorem mem_aliveInStore : id ∈ world.aliveInStore ↔ Living world.combatants id := by
  unfold aliveInStore Living
  rw [List.mem_map]
  constructor
  · rintro ⟨⟨key, combatant⟩, hmem, rfl⟩
    rw [List.mem_filter, IndexMap.mem_entries_iff] at hmem
    exact ⟨combatant, hmem.1, by simpa using hmem.2⟩
  · rintro ⟨combatant, hget, halive⟩
    refine ⟨(id, combatant), List.mem_filter.mpr ⟨IndexMap.mem_entries_iff.mpr hget, ?_⟩, rfl⟩
    simp [halive]

theorem mem_aliveIds : id ∈ world.aliveIds ↔ Living world.combatants id := by
  rw [aliveIds, List.mem_insertionSort, mem_aliveInStore]

theorem mem_deadIds : id ∈ world.deadIds ↔
      ∃ combatant, world.combatants.get? id = some combatant ∧ combatant.dead = true := by
  unfold deadIds
  rw [List.mem_map]
  constructor
  · rintro ⟨⟨key, combatant⟩, hmem, rfl⟩
    rw [List.mem_filter, IndexMap.mem_entries_iff] at hmem
    exact ⟨combatant, hmem⟩
  · rintro ⟨combatant, hget, hdead⟩
    exact ⟨(id, combatant), List.mem_filter.mpr ⟨IndexMap.mem_entries_iff.mpr hget, hdead⟩, rfl⟩

theorem rtAlive_eq_zero (hnone : ∀ id, ¬Living world.combatants id) : world.rtAlive = 0 := by
  rw [rtAlive, List.length_eq_zero_iff, List.eq_nil_iff_forall_not_mem]
  exact fun id hid ↦ hnone id (mem_aliveInStore.mp hid)

theorem rtAlive_shiftRemove_le {next : World}
    (hnext : next.combatants = world.combatants.shiftRemove id) : next.rtAlive ≤ world.rtAlive := by
  unfold rtAlive aliveInStore
  rw [hnext, List.length_map, List.length_map]
  exact (List.filter_sublist.filter _).length_le

end World

/-! ### Timelines -/

section Timelines

variable {timeline : Timeline} {slot : TurnKey} {id : EntityId}

theorem mem_schedule {entries : List (ℤ × EntityId)} (hslot : slot ∈ schedule timeline entries) :
    (slot ∈ timeline ∧ slot.entity ∉ entries.map Prod.snd) ∨ ∃ entry ∈ entries, slot = toLex entry := by
  induction entries generalizing timeline with
  | nil => exact Or.inl ⟨hslot, List.not_mem_nil⟩
  | cons entry rest ih =>
    rcases ih hslot with ⟨hmem, hrest⟩ | ⟨other, hother, heq⟩
    · rcases mem_insert.mp hmem with heq | ⟨hold, hentity⟩
      · exact Or.inr ⟨entry, List.mem_cons_self .., heq⟩
      · exact Or.inl ⟨hold, by simpa using ⟨hentity, by simpa using hrest⟩⟩
    · exact Or.inr ⟨other, List.mem_cons_of_mem _ hother, heq⟩

theorem contains_insert {key : ℤ} {entity : EntityId} :
    (timeline.insert key entity).contains id = true ↔ id = entity ∨ timeline.contains id = true := by
  simp only [contains_iff, mem_insert]
  constructor
  · rintro ⟨slot, rfl | ⟨hslot, -⟩, rfl⟩
    · exact Or.inl rfl
    · exact Or.inr ⟨slot, hslot, rfl⟩
  · rintro (rfl | ⟨slot, hslot, rfl⟩)
    · exact ⟨toLex (key, id), Or.inl rfl, rfl⟩
    · by_cases hentity : slot.entity = entity
      · exact ⟨toLex (key, entity), Or.inl rfl, hentity.symm⟩
      · exact ⟨slot, Or.inr ⟨hslot, hentity⟩, rfl⟩

theorem contains_schedule {entries : List (ℤ × EntityId)} :
    (schedule timeline entries).contains id = true ↔
      id ∈ entries.map Prod.snd ∨ timeline.contains id = true := by
  induction entries generalizing timeline with
  | nil => simp [schedule]
  | cons entry rest ih =>
    change (schedule (timeline.insert entry.1 entry.2) rest).contains id = true ↔ _
    rw [ih, contains_insert, List.map_cons, List.mem_cons]
    tauto

theorem contains_remove {removed : EntityId} :
    (timeline.remove removed).contains id = true ↔ timeline.contains id = true ∧ id ≠ removed := by
  simp only [contains_iff, mem_remove]
  constructor
  · rintro ⟨slot, ⟨hslot, hne⟩, rfl⟩
    exact ⟨⟨slot, hslot, rfl⟩, hne⟩
  · rintro ⟨⟨slot, hslot, rfl⟩, hne⟩
    exact ⟨slot, ⟨hslot, hne⟩, rfl⟩

theorem mem_foldl_remove {ids : List EntityId} :
    slot ∈ ids.foldl Timeline.remove timeline ↔ slot ∈ timeline ∧ slot.entity ∉ ids := by
  induction ids generalizing timeline with
  | nil => simp
  | cons first rest ih =>
    rw [List.foldl_cons, ih, mem_remove, List.mem_cons]
    tauto

theorem head?_remove {head : EntityId} (hhead : timeline.head? = some head) (hne : head ≠ id) :
    (timeline.remove id).head? = some head := by
  obtain ⟨slot, hslot, rfl, hleast⟩ := Timeline.head?_eq_some_iff.mp hhead
  refine Timeline.head?_eq_some_iff.mpr ⟨slot, mem_remove.mpr ⟨hslot, hne⟩, rfl, ?_⟩
  exact fun other hother ↦ hleast other (mem_remove.mp hother).1

theorem ScheduledLiving.remove {store : ComponentStore Combatant}
    (hliving : ScheduledLiving timeline store) : ScheduledLiving (timeline.remove id) store :=
  fun slot hslot ↦ hliving slot (mem_remove.mp hslot).1

theorem ScheduledLiving.shiftRemove {store : ComponentStore Combatant}
    (hliving : ScheduledLiving timeline store) :
    ScheduledLiving (timeline.remove id) (store.shiftRemove id) := by
  intro slot hslot
  obtain ⟨hold, hne⟩ := mem_remove.mp hslot
  exact living_shiftRemove.mpr ⟨hliving slot hold, hne⟩

end Timelines

/-! ### The schedule -/

structure TurnBasedSchedule (world : World) (combat : CombatState) : Prop where
  head : ∀ id, combat.active = some id → world.timeline.head? = some id
  running : combat.active = none → world.rtAlive < 2
  living : ScheduledLiving world.timeline world.combatants
  orders : NoOrders world.combatants

structure RealTimeSchedule (world : World) (combat : CombatState) : Prop where
  active : combat.active = none
  scheduled : ∀ id, world.timeline.contains id = true ↔ Living world.combatants id
  keys : ∀ slot ∈ world.timeline, 0 ≤ slot.key
  orders : OrdersLiving world.combatants

/-- The clock of an encounter is within its bound, and a pending mode is another one. -/
structure Clocked (combat : CombatState) : Prop where
  clock : ∀ clock, combat.clock = some clock → clock.elapsed ≤ rtClockMax
  pending : combat.pendingMode ≠ some combat.mode

structure Scheduled (world : World) (combat : CombatState) : Prop extends Clocked combat where
  turnBased : combat.mode = .turnBased → TurnBasedSchedule world combat
  realTime : combat.mode = .realTime → RealTimeSchedule world combat

/-- A world whose encounter is scheduled; without one nobody fights and nothing is scheduled. -/
structure Coherent (world : World) : Prop where
  scheduled : ∀ combat, world.combat = some combat → Scheduled world combat
  released : world.combat = none → world.combatants.keys = [] ∧ world.timeline.iter = []

structure Settling (world : World) (combat : CombatState) : Prop extends Clocked combat where
  present : world.combat = some combat
  mode : combat.mode = .turnBased
  living : ScheduledLiving world.timeline world.combatants
  orders : NoOrders world.combatants

variable {world next : World} {combat : CombatState} {round : ℕ} {facts : TransitionFacts}

theorem coherent_of_scheduled (hcombat : world.combat = some combat)
    (hscheduled : Scheduled world combat) : Coherent world where
  scheduled := by
    intro other hother
    rw [hcombat, Option.some.injEq] at hother
    exact hother ▸ hscheduled
  released := fun hnone ↦ by rw [hcombat] at hnone; cases hnone

/-- Worlds with the same schedule. Assumes: the same timeline, combatants and encounter. -/
theorem Coherent.congr (hcoherent : Coherent world) (htimeline : next.timeline = world.timeline)
    (hcombatants : next.combatants = world.combatants) (hcombat : next.combat = world.combat) :
    Coherent next := by
  obtain ⟨_, _, _, _, _, _, _, _, _, _, _⟩ := next
  dsimp only at htimeline hcombatants hcombat
  subst htimeline hcombatants hcombat
  refine ⟨fun combat hsome ↦ ?_, hcoherent.released⟩
  obtain ⟨hclocked, hturn, hreal⟩ := hcoherent.scheduled combat hsome
  exact ⟨hclocked, fun hmode ↦ ⟨(hturn hmode).1, (hturn hmode).2, (hturn hmode).3, (hturn hmode).4⟩,
    fun hmode ↦ ⟨(hreal hmode).1, (hreal hmode).2, (hreal hmode).3, (hreal hmode).4⟩⟩

/-! ### Rounds -/

theorem living_of_mem_filter {store : ComponentStore Combatant} {entry : EntityId × Combatant}
    (hentry : entry ∈ store.entries.filter fun entry ↦ !entry.2.dead) : Living store entry.1 := by
  rw [List.mem_filter] at hentry
  exact ⟨entry.2, IndexMap.mem_entries_iff.mp hentry.1, by simpa using hentry.2⟩

theorem tbRoundStart_coherent {head : EntityId} (hsettling : Settling world combat)
    (hstart : tbRoundStart world = .ok ((head, round), next)) : Coherent next := by
  simp only [tbRoundStart, hsettling.present, expect_some, bind_eq, ok_bind, pure_eq,
    bind_eq_ok_iff, expect_eq_ok_iff] at hstart
  obtain ⟨first, hhead, _, -, hnext⟩ := hstart
  simp only [Result.ok.injEq, Prod.mk.injEq] at hnext
  obtain ⟨⟨rfl, -⟩, rfl⟩ := hnext
  generalize saturatingAdd u32Max combat.round 1 = round at hhead
  set expired := (world.mapAlive fun state ↦ state.refresh .roundStart).expireAll round
  have hexpired : Stood world.combatants expired.combatants :=
    (mapAlive_stood world fun state ↦ state.stands_refresh .roundStart).trans (expireAll_stood _ _)
  have hrefreshed := refreshOne_stood expired first .turnStart
  refine coherent_of_scheduled rfl ⟨⟨hsettling.clock, hsettling.pending⟩, fun _ ↦ ?_, fun hmode ↦ ?_⟩
  · refine ⟨?_, fun h ↦ (by cases h), ?_,
      noOrders_of_kept (hexpired.trans hrefreshed).kept hsettling.orders⟩
    · intro id hid
      rwa [← Option.some.inj hid]
    · refine scheduledLiving_of_stood hrefreshed fun slot hslot ↦ ?_
      rcases mem_schedule hslot with ⟨hold, -⟩ | ⟨entry, hentry, rfl⟩
      · exact (living_iff_of_stood hexpired).mpr (hsettling.living slot hold)
      · obtain ⟨known, hknown, rfl⟩ := List.mem_map.mp hentry
        exact living_of_mem_filter hknown
  · rw [hsettling.mode] at hmode
    cases hmode

theorem rtRoundStart_coherent (hcombat : world.combat = some combat) (hclocked : Clocked combat)
    (hmode : combat.mode = .realTime) (hreal : RealTimeSchedule world combat)
    (hstart : rtRoundStart world = .ok (round, next)) : Coherent next := by
  simp only [rtRoundStart, hcombat, expect_some, bind_eq, ok_bind, Result.pure_ok_iff,
    Prod.mk.injEq] at hstart
  obtain ⟨-, rfl⟩ := hstart
  generalize saturatingAdd u32Max combat.round 1 = round
  have hstood : Stood world.combatants ((world.mapAlive fun state ↦
      (state.refresh .roundStart).refresh .turnStart).expireAll round).combatants := by
    refine (mapAlive_stood world fun state ↦ ?_).trans (expireAll_stood _ _)
    exact (state.stands_refresh .roundStart).trans (Combatant.stands_refresh _ .turnStart)
  refine coherent_of_scheduled rfl ⟨⟨hclocked.clock, hclocked.pending⟩, fun hturn ↦ ?_, fun _ ↦ ?_⟩
  · rw [hmode] at hturn
    cases hturn
  · exact ⟨hreal.active, fun id ↦ (hreal.scheduled id).trans (living_iff_of_stood hstood).symm,
      hreal.keys, ordersLiving_of_stood hstood hreal.orders⟩

theorem switchToRealTime_coherent (hsettling : Settling world combat)
    (hpending : combat.pendingMode = none) (hswitch : switchToRealTime world = .ok (round, next)) :
    Coherent next := by
  simp only [switchToRealTime, hsettling.present, expect_some, bind_eq, ok_bind, bind_eq_ok_iff,
    expect_eq_ok_iff] at hswitch
  obtain ⟨clock, -, _, -, hstart⟩ := hswitch
  have hclocked : Clocked { combat with mode := .realTime, active := none } :=
    ⟨hsettling.clock, by simp [hpending]⟩
  refine rtRoundStart_coherent rfl hclocked rfl ?_ hstart
  have hids (id : EntityId) :
      id ∈ (world.aliveIds.map fun id ↦ ((clock.elapsed : ℤ), id)).map Prod.snd ↔
        Living world.combatants id := by
    rw [List.map_map, ← World.mem_aliveIds]
    simp [Function.comp_def]
  refine ⟨rfl, fun id ↦ ?_, fun slot hslot ↦ ?_, ordersLiving_of_noOrders hsettling.orders⟩
  · rw [contains_schedule, hids]
    refine ⟨fun hscheduled ↦ hscheduled.elim (fun hliving ↦ hliving) fun hold ↦ ?_, Or.inl⟩
    obtain ⟨slot, hslot, rfl⟩ := contains_iff.mp hold
    exact hsettling.living slot hslot
  · rcases mem_schedule hslot with ⟨hold, hnew⟩ | ⟨entry, hentry, rfl⟩
    · exact absurd ((hids _).mpr (hsettling.living slot hold)) hnew
    · obtain ⟨id, -, rfl⟩ := List.mem_map.mp hentry
      exact Int.natCast_nonneg clock.elapsed

theorem living_clearOrders {store : ComponentStore Combatant} {id : EntityId} :
    Living (store.mapValues fun _ state ↦ { state with order := none }) id ↔ Living store id := by
  unfold Living
  rw [IndexMap.get?_mapValues]
  cases store.get? id with
  | none => simp
  | some combatant => simp

theorem noOrders_clearOrders (store : ComponentStore Combatant) :
    NoOrders (store.mapValues fun _ state ↦ { state with order := none }) := by
  intro id combatant hget
  rw [IndexMap.get?_mapValues, Option.map_eq_some_iff] at hget
  obtain ⟨old, -, rfl⟩ := hget
  rfl

theorem switchToTurnBased_coherent {head : EntityId} (hcombat : world.combat = some combat)
    (hclocked : Clocked combat) (hpending : combat.pendingMode = none)
    (hreal : RealTimeSchedule world combat)
    (hswitch : switchToTurnBased world = .ok ((head, round), next)) : Coherent next := by
  simp only [switchToTurnBased, hcombat, expect_some, bind_eq, ok_bind] at hswitch
  have hturned : Clocked { combat with mode := .turnBased } :=
    ⟨hclocked.clock, by simp [hpending]⟩
  refine tbRoundStart_coherent ⟨hturned, rfl, rfl, fun slot hslot ↦ ?_, noOrders_clearOrders _⟩
    hswitch
  refine living_clearOrders.mpr ((hreal.scheduled _).mp ?_)
  exact contains_iff.mpr ⟨slot, hslot, rfl⟩

/-! ### Turn advance -/

theorem terminate_coherent (hsettling : Settling world combat) (hfew : world.rtAlive < 2)
    (hterminate : terminate world = .ok (facts, next)) : Coherent next := by
  simp only [terminate, hsettling.present, expect_some, ok_bind, Result.ok.injEq, Prod.mk.injEq]
    at hterminate
  obtain ⟨-, rfl⟩ := hterminate
  refine coherent_of_scheduled rfl ⟨⟨hsettling.clock, hsettling.pending⟩, fun _ ↦ ?_, fun hmode ↦ ?_⟩
  · exact ⟨nofun, fun _ ↦ hfew, hsettling.living, hsettling.orders⟩
  · rw [hsettling.mode] at hmode
    cases hmode

theorem nextTurn_coherent (hsettling : Settling world combat)
    (hturn : nextTurn world = .ok (facts, next)) : Coherent next := by
  simp only [nextTurn, hsettling.present, expect_some, bind_eq, ok_bind, pure_eq, bind_eq_ok_iff,
    expect_eq_ok_iff, Result.ok.injEq, Prod.mk.injEq] at hturn
  obtain ⟨head, hhead, _, -, -, rfl⟩ := hturn
  have hstood := refreshOne_stood world head .turnStart
  refine coherent_of_scheduled rfl ⟨⟨hsettling.clock, hsettling.pending⟩, fun _ ↦ ?_, fun hmode ↦ ?_⟩
  · refine ⟨fun id hid ↦ ?_, fun h ↦ (by cases h),
      scheduledLiving_of_stood hstood hsettling.living,
      noOrders_of_kept hstood.kept hsettling.orders⟩
    rw [← Option.some.inj hid]
    exact hhead
  · rw [hsettling.mode] at hmode
    cases hmode

/-- The clock advance of a rollover leaves the encounter between two turns. -/
theorem Settling.advanceClock (clock : EncounterClock) {new : ℕ}
    (hsettling : Settling world combat) (hnew : new ≤ rtClockMax) :
    Settling (deliverClockAdvance { world with combat := some { combat with
        clock := some { clock with elapsed := new }
        pendingMode := none } } clock.elapsed new)
      { combat with clock := some { clock with elapsed := new }, pendingMode := none } := by
  have hstood := deliverClockAdvance_stood { world with
      combat := some { combat with
        clock := some { clock with elapsed := new }
        pendingMode := none } } clock.elapsed new
  refine ⟨⟨fun other hother ↦ ?_, nofun⟩, rfl, hsettling.mode,
    scheduledLiving_of_stood hstood hsettling.living, noOrders_of_kept hstood.kept hsettling.orders⟩
  rw [← Option.some.inj hother]
  exact hnew

theorem rollover_coherent (hsettling : Settling world combat)
    (hrollover : rollover world = .ok (facts, next)) : Coherent next := by
  simp only [rollover, hsettling.present, expect_some, bind_eq, ok_bind, pure_eq] at hrollover
  split at hrollover
  · next clock hclock =>
    have hnew : min rtClockMax (saturatingAdd u64Max clock.elapsed clock.roundTicks) ≤ rtClockMax :=
      min_le_left ..
    have hadvanced := hsettling.advanceClock clock hnew
    split_ifs at hrollover with hpending
    · obtain ⟨⟨round, after⟩, hswitch, hnext⟩ := bind_eq_ok_iff.mp hrollover
      cases hnext
      exact switchToRealTime_coherent hadvanced rfl hswitch
    · obtain ⟨⟨turn, after⟩, hstart, hnext⟩ := bind_eq_ok_iff.mp hrollover
      cases hnext
      exact tbRoundStart_coherent hadvanced hstart
  · obtain ⟨⟨turn, after⟩, hstart, hnext⟩ := bind_eq_ok_iff.mp hrollover
    cases hnext
    exact tbRoundStart_coherent hsettling hstart

/-- Settling the turn restores the schedule. -/
theorem advanceTracked_coherent (hsettling : Settling world combat)
    (hadvance : advanceTracked world = .ok (facts, next)) : Coherent next := by
  unfold advanceTracked at hadvance
  split_ifs at hadvance with halive hempty
  · exact rollover_coherent hsettling hadvance
  · exact nextTurn_coherent hsettling hadvance
  · exact terminate_coherent hsettling (not_le.mp halive) hadvance

end Crpg.Sim
