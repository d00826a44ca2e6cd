import Crpg.Lib.Tiling
import Crpg.Sim.Refills

/-!
# Refresh events over runs

Over a run of an encounter every round start is delivered once for every step of the round counter,
and the clock advances that are delivered tile the time the clock ran. Only the tick that takes the
clock to its bound delivers nothing.
-/

set_option autoImplicit false

namespace Crpg.Sim

open Crpg.Core Crpg.Lib Crpg.Rules Crpg.Data
open Result (bind_eq bind_eq_ok_iff bind_ok_iff expect_eq_ok_iff expect_some isOkAnd_iff ok_bind
  pure_eq pure_ok_iff)

/-! ### What one call accounts for -/

def advances (log : List Delivery) : List (ℕ × ℕ) :=
  log.filterMap fun delivery ↦
    match delivery with
    | .advance old new => some (old, new)
    | _ => none

@[simp]
theorem advances_nil : advances [] = [] := rfl

@[simp]
theorem advances_cons (old new : ℕ) (log : List Delivery) :
    advances (.advance old new :: log) = (old, new) :: advances log := rfl

theorem advances_append (first second : List Delivery) :
    advances (first ++ second) = advances first ++ advances second :=
  List.filterMap_append

/-- How a call moves the clock: not at all, by the one advance it delivers, or to the bound without
a delivery. -/
inductive ClockStep (before after : CombatState) : List (ℕ × ℕ) → Prop
  | still (clock : after.clock = before.clock) (mode : after.mode = before.mode) :
      ClockStep before after []
  | advance {clock : EncounterClock} {new : ℕ} (found : before.clock = some clock)
      (grows : clock.elapsed ≤ new)
      (runs : before.mode = .turnBased ∨ clock.elapsed < rtClockMax)
      (set : after.clock = some { clock with elapsed := new }) :
      ClockStep before after [(clock.elapsed, new)]
  | last {clock : EncounterClock} (found : before.clock = some clock)
      (bound : clock.elapsed + 1 = rtClockMax) (mode : before.mode = .realTime)
      (kept : after.mode = .realTime)
      (set : after.clock = some { clock with elapsed := rtClockMax }) : ClockStep before after []

/-- What a call's log says of the encounter: one round start for each step of the round counter, and
the advance of the clock. -/
structure Accounted (before after : CombatState) (log : List Delivery) : Prop where
  round : log.count .roundStart = 0 ∧ after.round = before.round ∨
    log.count .roundStart = 1 ∧ after.round = saturatingAdd u32Max before.round 1
  clock : ClockStep before after (advances log)

section Accounts

variable {world next : World} {combat : CombatState} {log : List Delivery}

theorem tbRoundStartLogged_combat (hcombat : world.combat = some combat) {turn : EntityId × ℕ}
    (hstart : tbRoundStartLogged world = .ok (log, turn, next)) :
    log = [.roundStart, .turnStart turn.1] ∧ next.combat = some { combat with
      active := some turn.1
      round := saturatingAdd u32Max combat.round 1 } := by
  simp only [tbRoundStartLogged, hcombat, expect_some, bind_eq, pure_eq, ok_bind, bind_eq_ok_iff,
    expect_eq_ok_iff, Result.ok.injEq, Prod.mk.injEq] at hstart
  obtain ⟨head, -, _, -, rfl, rfl, rfl⟩ := hstart
  exact ⟨rfl, rfl⟩

theorem rtRoundStartLogged_combat (hcombat : world.combat = some combat) {round : ℕ}
    (hstart : rtRoundStartLogged world = .ok (log, round, next)) :
    log = [.roundStart, .turnStartAll] ∧
      next.combat = some { combat with round := saturatingAdd u32Max combat.round 1 } := by
  simp only [rtRoundStartLogged, hcombat, expect_some, bind_eq, pure_ok_iff, ok_bind, Prod.mk.injEq]
    at hstart
  obtain ⟨rfl, -, rfl⟩ := hstart
  exact ⟨rfl, rfl⟩

variable {after : CombatState} {facts : TransitionFacts}

theorem accounted_of_eq {before : CombatState} (hround : after.round = before.round)
    (hclock : after.clock = before.clock) (hmode : after.mode = before.mode)
    (hlog : log.count .roundStart = 0 ∧ advances log = []) : Accounted before after log := by
  refine ⟨Or.inl ⟨hlog.1, hround⟩, ?_⟩
  rw [hlog.2]
  exact .still hclock hmode

theorem rolloverLogged_accounted (hcombat : world.combat = some combat)
    (hmode : combat.mode = .turnBased) (hclocked : Clocked combat)
    (hrollover : rolloverLogged world = .ok (log, facts, next)) :
    ∃ after, next.combat = some after ∧ Accounted combat after log := by
  simp only [rolloverLogged, hcombat, expect_some, bind_eq, pure_eq, ok_bind] at hrollover
  cases hclock : combat.clock with
  | none =>
    simp only [hclock, bind_eq_ok_iff, Result.ok.injEq, Prod.mk.injEq] at hrollover
    obtain ⟨⟨_, turn, _⟩, hstart, rfl, -, rfl⟩ := hrollover
    obtain ⟨rfl, hnext⟩ := tbRoundStartLogged_combat hcombat hstart
    exact ⟨_, hnext, Or.inr ⟨rfl, rfl⟩, .still rfl rfl⟩
  | some clock =>
    have hbound := hclocked.clock clock hclock
    simp only [hclock] at hrollover
    generalize hnew : min rtClockMax (saturatingAdd u64Max clock.elapsed clock.roundTicks) = new
      at hrollover
    have hgrows : clock.elapsed ≤ new := by
      have hmax : rtClockMax = 2147483647 := rfl
      have hlimit : u64Max = 18446744073709551615 := rfl
      rw [← hnew, saturatingAdd]
      omega
    have hstep (after : CombatState) (hset : after.clock = some { clock with elapsed := new })
        (hround : after.round = saturatingAdd u32Max combat.round 1) (rest : List Delivery)
        (hrest : rest.count .roundStart = 1 ∧ advances rest = []) :
        Accounted combat after (.advance clock.elapsed new :: rest) := by
      refine ⟨Or.inr ⟨hrest.1, hround⟩, ?_⟩
      rw [advances_cons, hrest.2]
      exact .advance hclock hgrows (Or.inl hmode) hset
    split_ifs at hrollover
    · simp only [bind_eq_ok_iff, Result.ok.injEq, Prod.mk.injEq] at hrollover
      obtain ⟨⟨_, _, _⟩, hswitch, rfl, -, rfl⟩ := hrollover
      simp only [switchToRealTimeLogged, bind_ok_iff] at hswitch
      obtain ⟨found, hfound, _, -, _, -, hstart⟩ := hswitch
      cases hfound
      obtain ⟨rfl, hnext⟩ := rtRoundStartLogged_combat rfl hstart
      exact ⟨_, hnext, hstep _ rfl rfl _ ⟨rfl, rfl⟩⟩
    · simp only [bind_eq_ok_iff, Result.ok.injEq, Prod.mk.injEq] at hrollover
      obtain ⟨⟨_, _, _⟩, hstart, rfl, -, rfl⟩ := hrollover
      obtain ⟨rfl, hnext⟩ := tbRoundStartLogged_combat rfl hstart
      exact ⟨_, hnext, hstep _ rfl rfl _ ⟨rfl, rfl⟩⟩

theorem advanceTrackedLogged_accounted (hcombat : world.combat = some combat)
    (hmode : combat.mode = .turnBased) (hclocked : Clocked combat)
    (hadvance : advanceTrackedLogged world = .ok (log, facts, next)) :
    ∃ after, next.combat = some after ∧ Accounted combat after log := by
  unfold advanceTrackedLogged at hadvance
  split_ifs at hadvance
  · exact rolloverLogged_accounted hcombat hmode hclocked hadvance
  · simp only [nextTurnLogged, hcombat, expect_some, bind_eq, pure_eq, ok_bind, bind_eq_ok_iff,
      Result.ok.injEq, Prod.mk.injEq] at hadvance
    obtain ⟨_, -, _, -, rfl, -, rfl⟩ := hadvance
    exact ⟨_, rfl, accounted_of_eq rfl rfl rfl ⟨rfl, rfl⟩⟩
  · simp only [silent, terminate, hcombat, expect_some, ok_bind, Result.ok.injEq, Prod.mk.injEq]
      at hadvance
    obtain ⟨rfl, -, rfl⟩ := hadvance
    exact ⟨_, rfl, accounted_of_eq rfl rfl rfl ⟨rfl, rfl⟩⟩

theorem settleUseLogged_accounted (hcombat : world.combat = some combat)
    (hmode : combat.mode = .turnBased) (hclocked : Clocked combat) {actor : EntityId}
    {ability : Ulid} (hsettle : settleUseLogged world actor ability = .ok (log, facts, next)) :
    ∃ after, next.combat = some after ∧ Accounted combat after log := by
  simp only [settleUseLogged, hcombat, expect_some, bind_eq, pure_eq, ok_bind, bind_eq_ok_iff]
    at hsettle
  obtain ⟨_, -, hsettle⟩ := hsettle
  have hcleared : (unscheduleDead world).combat = some combat := hcombat
  have hpopped : (endTurn (unscheduleDead world)).combat = some combat :=
    (endTurn_combat _).trans hcleared
  split_ifs at hsettle
  · cases hsettle
    exact ⟨_, rfl, accounted_of_eq rfl rfl rfl ⟨rfl, rfl⟩⟩
  · cases hsettle
    exact ⟨_, rfl, accounted_of_eq rfl rfl rfl ⟨rfl, rfl⟩⟩
  · exact advanceTrackedLogged_accounted hcleared hmode hclocked hsettle
  · exact advanceTrackedLogged_accounted hpopped hmode hclocked hsettle
  · cases hsettle
    exact ⟨_, rfl, accounted_of_eq rfl rfl rfl ⟨rfl, rfl⟩⟩

theorem performActionLogged_accounted (hcoherent : Coherent world) {action : CombatAction}
    {facts : Option ActionOutcome × TransitionFacts}
    (hperform : performActionLogged world action = .ok (log, facts, next)) :
    ∃ before after, world.combat = some before ∧ next.combat = some after ∧
      Accounted before after log := by
  simp only [performActionLogged, bind_eq, bind_eq_ok_iff] at hperform
  obtain ⟨_, hvalid, hperform⟩ := hperform
  obtain ⟨combat, hcombat⟩ := combat_of_validateAction hvalid
  have hclocked := (hcoherent.scheduled combat hcombat).toClocked
  cases action with
  | stop actor =>
    simp only [pure_eq, bind_eq_ok_iff, Result.ok.injEq, Prod.mk.injEq] at hperform
    obtain ⟨_, -, rfl, -, rfl⟩ := hperform
    exact ⟨combat, combat, hcombat, hcombat, accounted_of_eq rfl rfl rfl ⟨rfl, rfl⟩⟩
  | endTurn actor =>
    have hmode := validateAction_endTurn hcombat hvalid
    simp only [pure_eq, bind_eq_ok_iff, Result.ok.injEq, Prod.mk.injEq] at hperform
    obtain ⟨⟨_, _, _⟩, hadvance, rfl, -, rfl⟩ := hperform
    have hpopped : (endTurn (unscheduleDead world)).combat = some combat :=
      (endTurn_combat _).trans hcombat
    obtain ⟨after, hafter, haccounted⟩ :=
      advanceTrackedLogged_accounted hpopped hmode hclocked hadvance
    exact ⟨combat, after, hcombat, hafter, haccounted⟩
  | useAbility actor ability target =>
    simp only [hcombat, expect_some, ok_bind, pure_eq] at hperform
    split at hperform
    · simp only [bind_eq_ok_iff, Result.ok.injEq, Prod.mk.injEq] at hperform
      obtain ⟨_, -, _, -, rfl, -, rfl⟩ := hperform
      exact ⟨combat, combat, hcombat, hcombat, accounted_of_eq rfl rfl rfl ⟨rfl, rfl⟩⟩
    · next hmode =>
      simp only [bind_eq_ok_iff, Result.ok.injEq, Prod.mk.injEq] at hperform
      obtain ⟨⟨_, resolved⟩, hresolve, ⟨_, _, _⟩, hsettle, rfl, -, rfl⟩ := hperform
      have hresolved : resolved.combat = some combat := by
        obtain ⟨_, _, _, _, rfl, -⟩ := resolveUse_frame hresolve
        exact hcombat
      obtain ⟨after, hafter, haccounted⟩ :=
        settleUseLogged_accounted hresolved hmode hclocked hsettle
      exact ⟨combat, after, hcombat, hafter, haccounted⟩

theorem roundBoundaryLogged_combat (hcombat : world.combat = some combat)
    (hboundary : roundBoundaryLogged world = .ok (log, facts, next)) :
    ∃ after, next.combat = some after ∧ after.clock = combat.clock ∧
      after.round = saturatingAdd u32Max combat.round 1 ∧ log.count .roundStart = 1 ∧
      advances log = [] := by
  simp only [roundBoundaryLogged, hcombat, expect_some, bind_eq, pure_eq, ok_bind] at hboundary
  split_ifs at hboundary
  · simp only [switchToTurnBasedLogged, expect_some, bind_eq, ok_bind, bind_eq_ok_iff,
      Result.ok.injEq, Prod.mk.injEq] at hboundary
    obtain ⟨⟨_, _, _⟩, hstart, rfl, -, rfl⟩ := hboundary
    obtain ⟨rfl, hnext⟩ := tbRoundStartLogged_combat rfl hstart
    exact ⟨_, hnext, rfl, rfl, rfl, rfl⟩
  · simp only [bind_eq_ok_iff, Result.ok.injEq, Prod.mk.injEq] at hboundary
    obtain ⟨⟨_, _, _⟩, hstart, rfl, -, rfl⟩ := hboundary
    obtain ⟨rfl, hnext⟩ := rtRoundStartLogged_combat rfl hstart
    exact ⟨_, hnext, rfl, rfl, rfl, rfl⟩

theorem clockStageLogged_accounted (hcombat : world.combat = some combat)
    (hstage : clockStageLogged world = .ok (log, facts, next)) :
    ∃ after, next.combat = some after ∧ Accounted combat after log := by
  unfold clockStageLogged at hstage
  split at hstage
  · next hrunning =>
    simp only [hcombat, expect_some, bind_eq, pure_eq, ok_bind, bind_eq_ok_iff, expect_eq_ok_iff]
      at hstage
    obtain ⟨clock, hclock, hstage⟩ := hstage
    simp only [rtRunning, hcombat, hclock, Option.any_some, Bool.and_eq_true,
      decide_eq_true_eq] at hrunning
    obtain ⟨⟨hmode, hbelow⟩, -⟩ := hrunning
    split_ifs at hstage with hlast
    · cases hstage
      refine ⟨_, rfl, Or.inl ⟨rfl, rfl⟩, .last hclock hlast hmode hmode ?_⟩
      rw [hlast]
    · obtain ⟨_, -, hstage⟩ := bind_eq_ok_iff.mp hstage
      cases hstage
      refine ⟨_, rfl, Or.inl ⟨rfl, rfl⟩, ?_⟩
      exact .advance hclock (Nat.le_succ _) (Or.inr hbelow) rfl
    · simp only [bind_eq_ok_iff, Result.ok.injEq, Prod.mk.injEq] at hstage
      obtain ⟨_, -, ⟨rest, _, _⟩, hboundary, rfl, -, rfl⟩ := hstage
      obtain ⟨after, hafter, hset, hround, hcount, hrest⟩ :=
        roundBoundaryLogged_combat rfl hboundary
      refine ⟨after, hafter, Or.inr ⟨?_, hround⟩, ?_⟩
      · rw [Delivery.emit_log, List.singleton_append, List.count_cons_of_ne Delivery.noConfusion,
          hcount]
      · rw [Delivery.emit_log, List.singleton_append, advances_cons, hrest]
        exact .advance hclock (Nat.le_succ _) (Or.inr hbelow) hset
  · cases hstage
    exact ⟨combat, hcombat, accounted_of_eq rfl rfl rfl ⟨rfl, rfl⟩⟩

theorem tickLogged_accounted {facts : TickFacts}
    (htick : tickLogged world = .ok (log, facts, next)) (hafter : next.combat = some after) :
    ∃ before, world.combat = some before ∧ Accounted before after log := by
  obtain ⟨⟨stagedLog, stagedFacts, staged⟩, hstage, hexecute⟩ := bind_eq_ok_iff.mp htick
  simp only [bind_eq_ok_iff, Result.ok.injEq, Prod.mk.injEq] at hexecute
  obtain ⟨⟨_, _⟩, hexecuted, rfl, -, rfl⟩ := hexecute
  have hsame : next.combat = staged.combat := executionStage_combat hexecuted
  cases hcombat : world.combat with
  | none =>
    have hidle : rtRunning world.advanceTick = false := by
      rw [rtRunning, show world.advanceTick.combat = none from hcombat]
    rw [clockStageLogged, hidle] at hstage
    cases hstage
    have hnone := hafter.symm.trans (hsame.trans hcombat)
    cases hnone
  | some combat =>
    have hticked : world.advanceTick.combat = some combat := hcombat
    obtain ⟨found, hfound, haccounted⟩ := clockStageLogged_accounted hticked hstage
    obtain rfl := Option.some.inj (hafter.symm.trans (hsame.trans hfound))
    exact ⟨combat, rfl, haccounted⟩

theorem Coherent.turnBased_of_active (hcoherent : Coherent world)
    (hcombat : world.combat = some combat) {id : EntityId} (hactive : combat.active = some id) :
    combat.mode = .turnBased := by
  cases hmode : combat.mode with
  | turnBased => rfl
  | realTime =>
    have hnone := ((hcoherent.scheduled combat hcombat).realTime hmode).active
    rw [hnone] at hactive
    cases hactive

theorem despawnLogged_accounted (hcoherent : Coherent world) {id : EntityId}
    {facts : Bool × TransitionFacts} (hdespawn : despawnLogged world id = .ok (log, facts, next))
    (hafter : next.combat = some after) :
    ∃ before, world.combat = some before ∧ Accounted before after log := by
  unfold despawnLogged at hdespawn
  split at hdespawn
  · cases hdespawn
    exact ⟨after, hafter, accounted_of_eq rfl rfl rfl ⟨rfl, rfl⟩⟩
  · next entities _ =>
    obtain ⟨⟨settledLog, _, settled⟩, hsettle, hnext⟩ := bind_eq_ok_iff.mp hdespawn
    simp only [Result.ok.injEq, Prod.mk.injEq] at hnext
    obtain ⟨rfl, -, rfl⟩ := hnext
    replace hafter : settled.combat = some after := hafter
    unfold settleDespawnLogged at hsettle
    split_ifs at hsettle with hempty hholds
    · cases hsettle
      cases hafter
    · obtain ⟨combat, hcombat, hactive⟩ := Option.bind_eq_some_iff.mp hholds
      replace hcombat : world.combat = some combat := hcombat
      obtain ⟨found, hfound, haccounted⟩ := advanceTrackedLogged_accounted
        (show (strip world entities id).combat = some combat from hcombat)
        (hcoherent.turnBased_of_active hcombat hactive)
        (hcoherent.scheduled combat hcombat).toClocked hsettle
      obtain rfl := Option.some.inj (hafter.symm.trans hfound)
      exact ⟨combat, hcombat, haccounted⟩
    · cases hsettle
      exact ⟨after, hafter, accounted_of_eq rfl rfl rfl ⟨rfl, rfl⟩⟩

end Accounts

/-! ### Runs -/

inductive Played (started : World) : List Delivery → World → Prop
  | start : Played started [] started
  | spawn {world next : World} {log : List Delivery} {data : EntityMeta} {id : EntityId}
      (before : Played started log world) (returned : world.spawn data = some (id, next)) :
      Played started log next
  | register {world next : World} {log : List Delivery} {spec : CreatureSpec} {id : EntityId}
      (before : Played started log world)
      (returned : registerCreature world spec = .ok (id, next)) : Played started log next
  | perform {world next : World} {log : List Delivery} {action : CombatAction}
      {facts : Option ActionOutcome × TransitionFacts} (before : Played started log world)
      (returned : performActionTracked world action = .ok (facts, next)) :
      Played started (log ++ logOf (performActionLogged world action)) next
  | requestMode {world next : World} {log : List Delivery} {mode : EncounterMode}
      (before : Played started log world) (returned : requestMode world mode = .ok next) :
      Played started log next
  | tick {world next : World} {log : List Delivery} {facts : TickFacts}
      (before : Played started log world) (returned : tickTracked world = .ok (facts, next)) :
      Played started (log ++ logOf (tickLogged world)) next
  | despawn {world next : World} {log : List Delivery} {id : EntityId}
      {facts : Bool × TransitionFacts} (before : Played started log world)
      (returned : despawnTracked world id = .ok (facts, next)) :
      Played started (log ++ logOf (despawnLogged world id)) next
  | transferOut {world next destination entered : World} {log : List Delivery}
      {entity moved : EntityId} (before : Played started log world)
      (destinationBefore : Reachable destination)
      (returned : transferEntity world destination entity = .ok (moved, next, entered)) :
      Played started (log ++ logOf (despawnLogged world entity)) next
  | transferIn {world next source left : World} {log : List Delivery} {entity moved : EntityId}
      (before : Played started log world) (sourceBefore : Reachable source)
      (returned : transferEntity source world entity = .ok (moved, left, next)) :
      Played started log next

variable {world : World} {log : List Delivery}

theorem Played.reachable {started : World} (hplayed : Played started log world)
    (hstarted : Reachable started) : Reachable world := by
  induction hplayed with
  | start => exact hstarted
  | spawn _ returned ih => exact .spawn ih returned
  | register _ returned ih => exact .register ih returned
  | perform _ returned ih => exact .perform ih returned
  | requestMode _ returned ih => exact .requestMode ih returned
  | tick _ returned ih => exact .tick ih returned
  | despawn _ returned ih => exact .despawn ih returned
  | transferOut _ destinationBefore returned ih =>
    exact .transferOut ih destinationBefore returned
  | transferIn _ sourceBefore returned ih => exact .transferIn sourceBefore ih returned

/-- The log of a run accounts for the round counter and the clock of its encounter. -/
structure Tiled (combat : CombatState) (log : List Delivery) : Prop where
  round : combat.round = min u32Max (log.count .roundStart)
  unclocked : combat.clock = none → advances log = []
  clock : ∀ clock, combat.clock = some clock → Tiles 0 (advances log) clock.elapsed ∨
    clock.elapsed = rtClockMax ∧ combat.mode = .realTime ∧
      Tiles 0 (advances log) (rtClockMax - 1)

theorem Tiled.step {before after : CombatState} {more : List Delivery} (htiled : Tiled before log)
    (haccounted : Accounted before after more) : Tiled after (log ++ more) := by
  obtain ⟨hround, hclock⟩ := haccounted
  have hcounted : after.round = min u32Max ((log ++ more).count .roundStart) := by
    rw [List.count_append]
    rcases hround with ⟨hzero, hsame⟩ | ⟨hone, hnext⟩
    · rw [hsame, htiled.round, hzero, Nat.add_zero]
    · rw [hnext, htiled.round, hone, saturatingAdd]
      omega
  generalize hmore : advances more = added at hclock
  cases hclock with
  | still hsame hmode =>
    refine ⟨hcounted, fun hnone ↦ ?_, fun clock hget ↦ ?_⟩
    · rw [advances_append, hmore, List.append_nil]
      exact htiled.unclocked (hsame ▸ hnone)
    · rw [advances_append, hmore, List.append_nil, hmode]
      exact htiled.clock clock (hsame ▸ hget)
  | @advance clock new hfound hgrows hruns hset =>
    refine ⟨hcounted, fun hnone ↦ ?_, fun found hget ↦ ?_⟩
    · rw [hset] at hnone
      cases hnone
    · rw [hset, Option.some.injEq] at hget
      subst hget
      rw [advances_append, hmore]
      rcases htiled.clock clock hfound with htiles | ⟨hbound, hmode, -⟩
      · exact Or.inl (htiles.append ⟨rfl, hgrows, rfl⟩)
      · rcases hruns with hturn | hbelow
        · rw [hmode] at hturn
          cases hturn
        · exact absurd hbound hbelow.ne
  | @last clock hfound hbound hmode hkept hset =>
    refine ⟨hcounted, fun hnone ↦ ?_, fun found hget ↦ Or.inr ?_⟩
    · rw [hset] at hnone
      cases hnone
    · rw [hset, Option.some.injEq] at hget
      subst hget
      refine ⟨rfl, hkept, ?_⟩
      rw [advances_append, hmore, List.append_nil]
      have hstop : clock.elapsed = rtClockMax - 1 := by omega
      rcases htiled.clock clock hfound with htiles | ⟨hover, -⟩
      · exact hstop ▸ htiles
      · omega

theorem tiled_of_played {started : World} (hplayed : Played started log world)
    (hstarted : Reachable started)
    (hfresh : ∀ combat, started.combat = some combat → Tiled combat []) {combat : CombatState}
    (hcombat : world.combat = some combat) : Tiled combat log := by
  induction hplayed generalizing combat with
  | start => exact hfresh combat hcombat
  | spawn _ returned ih =>
    obtain ⟨_, _, rfl⟩ := spawn_frame returned
    exact ih hcombat
  | register _ returned ih =>
    obtain ⟨spawned, record, hspawn, rfl⟩ := registerCreature_frame returned
    obtain ⟨_, _, rfl⟩ := spawn_frame hspawn
    exact ih hcombat
  | @perform world next log action facts before returned ih =>
    have hlogged := eq_ok_of_erased ((erased_performActionLogged world action).trans returned)
    obtain ⟨old, new, hold, hnew, haccounted⟩ := performActionLogged_accounted
      (coherent_of_reachable (before.reachable hstarted)) hlogged
    obtain rfl := Option.some.inj (hcombat.symm.trans hnew)
    exact (ih hold).step haccounted
  | requestMode _ returned ih =>
    simp only [Crpg.Sim.requestMode, bind_ok_iff, pure_ok_iff, Result.okOr_eq_ok_iff] at returned
    obtain ⟨old, hold, _, -, rfl⟩ := returned
    cases hcombat
    exact ⟨(ih hold).round, (ih hold).unclocked, (ih hold).clock⟩
  | @tick world next log facts before returned ih =>
    have hlogged := eq_ok_of_erased ((erased_tickLogged world).trans returned)
    obtain ⟨old, hold, haccounted⟩ := tickLogged_accounted hlogged hcombat
    exact (ih hold).step haccounted
  | @despawn world next log id facts before returned ih =>
    have hlogged := eq_ok_of_erased ((erased_despawnLogged world id).trans returned)
    obtain ⟨old, hold, haccounted⟩ := despawnLogged_accounted
      (coherent_of_reachable (before.reachable hstarted)) hlogged hcombat
    exact (ih hold).step haccounted
  | @transferOut world next destination entered log entity moved before _ returned ih =>
    obtain ⟨-, ⟨_, hremoved⟩, -⟩ := transferEntity_cases returned
    have hlogged := eq_ok_of_erased ((erased_despawnLogged world entity).trans hremoved)
    obtain ⟨old, hold, haccounted⟩ := despawnLogged_accounted
      (coherent_of_reachable (before.reachable hstarted)) hlogged hcombat
    exact (ih hold).step haccounted
  | transferIn _ _ returned ih =>
    obtain ⟨-, -, _, spawned, hspawn, rfl⟩ := transferEntity_cases returned
    obtain ⟨_, _, rfl⟩ := spawn_frame hspawn
    exact ih hcombat

/-- The encounter a start publishes: no round has passed, and its clock stands at zero. -/
theorem start_fresh {next : World} {spec : EncounterSpec} {mode : EncounterMode}
    {facts : StartFacts} (hstart : startEncounterInModeTracked world spec mode = .ok (facts, next))
    (combat : CombatState) (hcombat : next.combat = some combat) : Tiled combat [] := by
  simp only [startEncounterInModeTracked, bind_ok_iff, pure_ok_iff, Prod.mk.injEq] at hstart
  obtain ⟨prepared, hprepare, _, -, _, -, _, -, _, -, _, -, -, rfl⟩ := hstart
  have hclock : prepared.clock = spec.ruleset.roundTicks.map fun ticks ↦ ⟨ticks, 0⟩ := by
    simp only [prepare, bind_ok_iff, pure_ok_iff] at hprepare
    obtain ⟨_, -, _, -, _, -, _, -, _, -, _, -, _, -, _, -, _, -, _, -, _, -, _, -, _, -, _, -, _,
      -, rfl⟩ := hprepare
    rfl
  obtain rfl := Option.some.inj hcombat
  refine ⟨rfl, fun _ ↦ rfl, fun clock hget ↦ Or.inl ?_⟩
  obtain ⟨ticks, -, rfl⟩ := Option.map_eq_some_iff.mp (hclock.symm.trans hget)
  rfl

/-! ### Exactly once -/

/-- The duel with rounds of two ticks. -/
def clockedDuel : EncounterSpec :=
  { duelSpec with ruleset := { duelRuleset with roundTicks := some 2 } }

end Crpg.Sim
