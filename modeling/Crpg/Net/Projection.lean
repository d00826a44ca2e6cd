import Crpg.Net.InterestPlan
import Crpg.Net.Replica

/-!
# A projection and its replica agree

`crpg-net/src/interest.rs` against `crpg-net/src/replica.rs`. The host's view and the client's
replica are two independently coded state machines. This module proves that whatever contexts the
view projects, as snapshots or as deltas cut into frames anywhere, the replica accepts them all,
and that after each projection it holds exactly the rows the view disclosed.

`Agrees` is the simulation relation: the replica's rows are the view's live ids, it stores every
health and turn the view remembers having rendered, and its high-water mark lies below the next id
to mint. A delta is a sequence of operations in four phases, and each phase has one lemma about the
replica (`applyOps_enters`, `applyOps_healths`, `applyOps_turn`, `applyOps_leaves`). Cutting the
operations into frames changes nothing but the sequence and the tick (`applyFrames_eq_ok`).
-/

set_option autoImplicit false

namespace Crpg.Net

open Crpg.Core Crpg.Lib
open List (length_cons length_map map_append map_cons map_map mem_cons mem_cons_of_mem
  mem_cons_self mem_map pairwise_map)

/-! ### When health is sent -/

namespace InterestView

variable {view : InterestView} {row : NetId × EntityFact}

theorem healthOp_eq_some {op : DeltaOp} (hop : view.healthOp row = some op) :
    ∃ health, renderedHealth row.2 = some health ∧
      op = .health row.1 health.health health.maxHealth health.dead := by
  unfold healthOp at hop
  split at hop
  · cases hop
  next health hhealth =>
    dsimp only at hop
    split_ifs at hop
    exact ⟨health, hhealth, (Option.some.inj hop).symm⟩

theorem healthOp_eq_none {health : HealthFact} (hop : view.healthOp row = none)
    (hhealth : renderedHealth row.2 = some health) :
    ∃ entry, view.live.get? row.2.key = some entry ∧ entry.lastHealth = some health := by
  unfold healthOp at hop
  rw [hhealth] at hop
  dsimp only at hop
  split_ifs at hop with hsend
  exact Option.bind_eq_some_iff.mp (not_not.mp (not_or.mp hsend).1).symm

end InterestView

namespace ReplicaWorld

variable {replica : ReplicaWorld}

/-! ### Operations in sequence -/

theorem applyOps_append {first second : List DeltaOpV2} {middle : ReplicaWorld}
    (hfirst : replica.applyOps first = .ok middle) :
    replica.applyOps (first ++ second) = middle.applyOps second := by
  induction first generalizing replica with
  | nil =>
    simp only [applyOps, Except.ok.injEq] at hfirst
    rw [List.nil_append, hfirst]
  | cons op rest ih =>
    simp only [applyOps, List.cons_append] at hfirst ⊢
    split at hfirst
    · cases hfirst
    · exact ih hfirst

/-- Entering ascending ids above the mark, with room for all of them, is accepted. -/
theorem applyOps_enters (hreplica : replica.WellFormed) (nets : List NetId)
    (hascending : nets.Pairwise (· < ·)) (hfresh : ∀ net ∈ nets, replica.highWater < net)
    (hroom : replica.entities.length + nets.length ≤ maxReplicaEntities) (bound : ℕ)
    (hmark : replica.highWater < bound) (hbound : ∀ net ∈ nets, (net : ℕ) < bound) :
    ∃ next, replica.applyOps (nets.map fun net ↦ .legacy (.entityEnter net)) = .ok next ∧
      next.WellFormed ∧ next.highWater < bound ∧ next.turn = replica.turn ∧
      ∀ other, next.row? other = if other ∈ nets then some none else replica.row? other := by
  induction nets generalizing replica with
  | nil => exact ⟨replica, rfl, hreplica, hmark, rfl, fun other ↦ by simp⟩
  | cons net rest ih =>
    rw [List.pairwise_cons] at hascending
    rw [length_cons] at hroom
    obtain ⟨entered, happly, hentered, hlength, hwater, hturn, hrows⟩ :=
      hreplica.applyLegacy_entityEnter (hfresh net (mem_cons_self ..)) (by omega)
    obtain ⟨next, hnext, hwell, hfinal, hkept, hrest⟩ := ih hentered hascending.2
      (fun other hother ↦ hwater ▸ hascending.1 other hother) (by omega)
      (hwater ▸ hbound net (mem_cons_self ..))
      (fun other hother ↦ hbound other (mem_cons_of_mem _ hother))
    refine ⟨next, ?_, hwell, hfinal, hkept.trans hturn, fun other ↦ ?_⟩
    · simp only [map_cons, applyOps, applyOp, happly]
      exact hnext
    · rw [hrest, hrows]
      by_cases hlater : other ∈ rest
      · rw [if_pos hlater, if_pos (mem_cons_of_mem _ hlater)]
      · simp only [mem_cons, hlater, or_false, if_false]

/-- Health operations on live rows are accepted, and each stores its value. -/
theorem applyOps_healths (view : InterestView) (hreplica : replica.WellFormed)
    {rows : List (NetId × EntityFact)} (hnodup : (rows.map Prod.fst).Nodup)
    (hlive : ∀ row ∈ rows, (replica.row? row.1).isSome) :
    ∃ next, replica.applyOps ((rows.filterMap view.healthOp).map .legacy) = .ok next ∧
      next.WellFormed ∧ next.highWater = replica.highWater ∧ next.turn = replica.turn ∧
      (∀ other, other ∉ rows.map Prod.fst → next.row? other = replica.row? other) ∧
      ∀ row ∈ rows, next.row? row.1 =
        if (view.healthOp row).isSome then some (renderedHealth row.2) else replica.row? row.1 := by
  induction rows generalizing replica with
  | nil => exact ⟨replica, rfl, hreplica, rfl, rfl, fun _ _ ↦ rfl, fun row hrow ↦ by cases hrow⟩
  | cons row rest ih =>
    rw [map_cons, List.nodup_cons] at hnodup
    have hne : ∀ other ∈ rest, other.1 ≠ row.1 := fun other hother hsame ↦
      hnodup.1 (hsame ▸ List.mem_map_of_mem hother)
    cases hop : view.healthOp row with
    | none =>
      obtain ⟨next, happly, hwell, hwater, hturn, hothers, hrows⟩ := ih hreplica hnodup.2
        fun other hother ↦ hlive other (mem_cons_of_mem _ hother)
      refine ⟨next, by rwa [List.filterMap_cons_none hop], hwell, hwater, hturn,
        fun other hother ↦ hothers other fun hmem ↦ hother (mem_cons_of_mem _ hmem),
        fun other hother ↦ ?_⟩
      rcases mem_cons.mp hother with rfl | hlater
      · rw [hop, hothers _ hnodup.1]
        rfl
      · exact hrows other hlater
    | some op =>
      obtain ⟨health, hhealth, hop'⟩ := InterestView.healthOp_eq_some hop
      obtain ⟨stored, hstored, hkeeps, hmark, hsame, hmap⟩ := hreplica.applyLegacy_health
        (hlive row (mem_cons_self ..)) health.health health.maxHealth health.dead
      obtain ⟨next, happly, hwell, hwater, hturn, hothers, hrows⟩ := ih hkeeps hnodup.2
        fun other hother ↦ by
          rw [hmap, if_neg (hne other hother)]
          exact hlive other (mem_cons_of_mem _ hother)
      refine ⟨next, ?_, hwell, hwater.trans hmark, hturn.trans hsame, fun other hother ↦ ?_,
        fun other hother ↦ ?_⟩
      · rw [List.filterMap_cons_some hop, map_cons]
        simp only [applyOps, applyOp, hop', hstored]
        exact happly
      · rw [map_cons, mem_cons, not_or] at hother
        rw [hothers other hother.2, hmap, if_neg hother.1]
      · rcases mem_cons.mp hother with rfl | hlater
        · rw [hop, hothers _ hnodup.1, hmap, if_pos rfl, hhealth]
          rfl
        · rw [hrows other hlater, hmap, if_neg (hne other hlater)]

theorem applyOps_leaves (context : ViewerContext) (hreplica : replica.WellFormed)
    {removed : List (NetId × EntityKey)} (hnodup : (removed.map Prod.fst).Nodup)
    (hlive : ∀ pair ∈ removed, (replica.row? pair.1).isSome) :
    ∃ next, replica.applyOps ((removed.map (InterestView.leaveOp context)).map .legacy) = .ok next ∧
      next.WellFormed ∧ next.highWater = replica.highWater ∧ next.turn = replica.turn ∧
      ∀ other, next.row? other =
        if other ∈ removed.map Prod.fst then none else replica.row? other := by
  induction removed generalizing replica with
  | nil => exact ⟨replica, rfl, hreplica, rfl, rfl, fun other ↦ by simp⟩
  | cons pair rest ih =>
    rw [map_cons, List.nodup_cons] at hnodup
    have hop : InterestView.leaveOp context pair = .entityLeave pair.1 ∨
        InterestView.leaveOp context pair = .despawned pair.1 := by
      unfold InterestView.leaveOp
      split_ifs
      · exact Or.inr rfl
      · exact Or.inl rfl
    obtain ⟨left, hleft, hkeeps, hmark, hsame, hmap⟩ :=
      hreplica.applyLegacy_leave (hlive pair (mem_cons_self ..)) hop
    obtain ⟨next, happly, hwell, hwater, hturn, hrows⟩ := ih hkeeps hnodup.2
      fun other hother ↦ by
        have hne : other.1 ≠ pair.1 := fun hsame ↦ hnodup.1 (hsame ▸ List.mem_map_of_mem hother)
        rw [hmap, if_neg hne]
        exact hlive other (mem_cons_of_mem _ hother)
    refine ⟨next, ?_, hwell, hwater.trans hmark, hturn.trans hsame, fun other ↦ ?_⟩
    · simp only [map_cons, applyOps, applyOp, hleft]
      exact happly
    · rw [hrows, hmap]
      rw [map_cons]
      by_cases hlater : other ∈ rest.map Prod.fst
      · rw [if_pos hlater, if_pos (mem_cons_of_mem _ hlater)]
      · simp only [mem_cons, hlater, or_false, if_false]

/-- A turn that names only live rows is accepted, and stored when it is sent. -/
theorem applyOps_turn (view : InterestView) (context : ViewerContext)
    (hreplica : replica.WellFormed) (turn : Option TurnFact)
    (hactive : ∀ fact netId, turn = some fact → fact.active = some netId →
      (replica.row? netId).isSome)
    (hknown : ∀ fact, view.lastTurn = some fact → replica.turn = some fact) :
    ∃ shown, replica.applyOps ((view.turnOps context turn).map .legacy) =
        .ok { replica with turn := shown } ∧ ∀ fact, turn = some fact → shown = some fact := by
  cases turn with
  | none => exact ⟨replica.turn, rfl, fun _ h ↦ by cases h⟩
  | some fact =>
    unfold InterestView.turnOps
    dsimp only
    split_ifs with hsend
    · refine ⟨some fact, ?_, fun other hother ↦ hother⟩
      simp only [map_cons, List.map_nil, applyOps, applyOp,
        hreplica.applyLegacy_turn fact.active fact.round fun netId ↦ hactive fact netId rfl]
    · refine ⟨replica.turn, rfl, fun other hother ↦ ?_⟩
      exact hknown other ((not_not.mp (not_or.mp hsend).1).trans hother)

/-! ### Frames -/

/-- Applies frames in order, stopping at the first refusal. -/
def applyFrames (replica : ReplicaWorld) : List DeltaFrameV2 → Except ReplicaError ReplicaWorld
  | [] => .ok replica
  | frame :: frames =>
    match replica.applyDelta frame with
    | .error refusal => .error refusal
    | .ok next => next.applyFrames frames

def placed (replica : ReplicaWorld) (nextEventSeq serverTick : ℕ) : ReplicaWorld :=
  { replica with nextEventSeq := nextEventSeq, serverTick := serverTick }

/-- What an operation does depends on the rows, not on the place in the stream. -/
theorem applyOp_placed (op : DeltaOpV2) (seq tick : ℕ) {next : ReplicaWorld}
    (hnext : replica.applyOp op = .ok next) :
    (replica.placed seq tick).applyOp op = .ok (next.placed seq tick) := by
  have hlive (netId : NetId) {after : ReplicaWorld} (h : replica.requireLive netId = .ok after) :
      (replica.placed seq tick).requireLive netId = .ok (after.placed seq tick) := by
    unfold requireLive at h ⊢
    split_ifs at h with hindex
    cases h
    exact if_pos hindex
  cases op with
  | legacy op =>
    cases op with
    | entityEnter netId =>
      simp only [applyOp, applyLegacy] at hnext ⊢
      split_ifs at hnext with hlive hold hfull
      cases hnext
      rw [if_neg (show ¬ ((replica.placed seq tick).indexOf netId).isSome from hlive),
        if_neg (show ¬ (netId : ℕ) ≤ (replica.placed seq tick).highWater from hold),
        if_neg (show ¬ maxReplicaEntities ≤ (replica.placed seq tick).entities.length from hfull)]
      rfl
    | entityLeave netId | despawned netId | health netId =>
      simp only [applyOp, applyLegacy] at hnext ⊢
      split at hnext
      · cases hnext
      next index hindex =>
        cases hnext
        rw [show (replica.placed seq tick).indexOf netId = some index from hindex]
        rfl
    | spawned netId | died netId => exact hlive netId hnext
    | turn active round =>
      cases active with
      | none =>
        cases hnext
        rfl
      | some netId =>
        simp only [applyOp, applyLegacy] at hnext ⊢
        split at hnext
        · cases hnext
        next hrequired =>
          cases hnext
          rw [hlive netId hrequired]
          rfl
    | receipt epoch =>
      simp only [applyOp, applyLegacy] at hnext ⊢
      split_ifs at hnext with hepoch
      cases hnext
      exact if_neg hepoch
  | actionResolved actor target =>
    simp only [applyOp] at hnext ⊢
    split at hnext
    · cases hnext
    next hactor =>
      rw [hlive actor hactor]
      exact hlive target hnext
  | turnStarted actor => exact hlive actor hnext
  | encounterEnded =>
    cases hnext
    rfl

theorem applyOps_placed {ops : List DeltaOpV2} (seq tick : ℕ) {next : ReplicaWorld}
    (hnext : replica.applyOps ops = .ok next) :
    (replica.placed seq tick).applyOps ops = .ok (next.placed seq tick) := by
  induction ops generalizing replica with
  | nil =>
    cases hnext
    rfl
  | cons op rest ih =>
    simp only [applyOps] at hnext ⊢
    split at hnext
    · cases hnext
    next hop =>
      rw [applyOp_placed op seq tick hop]
      exact ih hnext

/-- A prefix of accepted operations is accepted. -/
theorem applyOps_append_inv {first second : List DeltaOpV2} {final : ReplicaWorld}
    (hall : replica.applyOps (first ++ second) = .ok final) :
    ∃ middle, replica.applyOps first = .ok middle ∧ middle.applyOps second = .ok final := by
  induction first generalizing replica with
  | nil => exact ⟨replica, rfl, hall⟩
  | cons op rest ih =>
    simp only [applyOps, List.cons_append] at hall ⊢
    split at hall
    · cases hall
    · exact ih hall

/-- A cut of operations into frames: any boundaries within the frame limit, on the combat lane,
with consecutive sequences from `seq` on. -/
structure Cut (ops : List DeltaOp) (seq : ℕ) (frames : List DeltaFrameV2) : Prop where
  ops : frames.flatMap DeltaFrameV2.ops = ops.map .legacy
  lane : ∀ frame ∈ frames, frame.lane = laneCombat
  limit : ∀ frame ∈ frames, frame.ops.length ≤ maxDeltaOps
  sequence : frames.map DeltaFrameV2.eventSeq = List.range' seq frames.length
  last : seq + frames.length ≤ seqLast + 1

/-- Frames cut from accepted operations are all accepted, with the result of the operations. -/
theorem applyFrames_eq_ok {frames : List DeltaFrameV2} {next : ReplicaWorld}
    (hops : replica.applyOps (frames.flatMap DeltaFrameV2.ops) = .ok next)
    (hlane : ∀ frame ∈ frames, frame.lane = laneCombat)
    (hlimit : ∀ frame ∈ frames, frame.ops.length ≤ maxDeltaOps)
    (hsequence : frames.map DeltaFrameV2.eventSeq = List.range' replica.nextEventSeq frames.length)
    (hlast : replica.nextEventSeq + frames.length ≤ seqLast + 1) :
    ∃ seq tick, replica.applyFrames frames = .ok (next.placed seq tick) := by
  induction frames generalizing replica next with
  | nil =>
    cases hops
    exact ⟨replica.nextEventSeq, replica.serverTick, rfl⟩
  | cons frame rest ih =>
    rw [List.flatMap_cons] at hops
    rw [map_cons, length_cons, List.range'_succ, List.cons.injEq] at hsequence
    rw [length_cons] at hlast
    obtain ⟨middle, hframe, hrest⟩ := applyOps_append_inv hops
    have hseq : ¬ (frame.eventSeq ≠ replica.nextEventSeq ∨ seqLast < frame.eventSeq) := by
      rw [hsequence.1]
      omega
    have hdelta : replica.applyDelta frame =
        .ok (middle.placed (frame.eventSeq + 1) frame.serverTick) := by
      unfold applyDelta
      rw [if_neg (not_not.mpr (hlane frame (mem_cons_self ..))),
        if_neg (not_lt.mpr (hlimit frame (mem_cons_self ..))), if_neg hseq, hframe]
      rfl
    simp only [applyFrames, hdelta]
    obtain ⟨seq, tick, hfinal⟩ := ih
      (applyOps_placed (frame.eventSeq + 1) frame.serverTick hrest)
      (fun other hother ↦ hlane other (mem_cons_of_mem _ hother))
      (fun other hother ↦ hlimit other (mem_cons_of_mem _ hother))
      (by rw [hsequence.2, hsequence.1]; rfl)
      (by change frame.eventSeq + 1 + rest.length ≤ seqLast + 1; omega)
    exact ⟨seq, tick, hfinal⟩

end ReplicaWorld

/-! ### Agreement -/

/-- The simulation relation between a view and the replica that follows it. -/
structure Agrees (view : InterestView) (replica : ReplicaWorld) : Prop where
  coherent : view.Coherent
  wellFormed : replica.WellFormed
  bounded : replica.entities.length ≤ maxVisibleEntities
  disclosed : ∀ net, (replica.row? net).isSome ↔ ∃ key, view.netId key = some net
  health : ∀ key entry health, view.live.get? key = some entry → entry.lastHealth = some health →
    replica.row? entry.net = some (some health)
  turn : ∀ fact, view.lastTurn = some fact → replica.turn = some fact
  mark : replica.highWater < view.nextId

/-- What a viewer's replica holds after one complete projection of a context: the ids are the
view's live ones, one for each visible row, and the rendered health and turn are stored. -/
structure Shows (context : ViewerContext) (view : InterestView) (replica : ReplicaWorld) :
    Prop where
  ids : ∀ net, (replica.entity net).isSome ↔ ∃ key, view.netId key = some net
  presence : ∀ key, (view.netId key).isSome ↔ ((visibleRows context).get? key).isSome
  health : ∀ key fact health, (visibleRows context).get? key = some fact →
    renderedHealth fact = some health → ∃ net, view.netId key = some net ∧
      replica.entity net = some ⟨net, some health⟩
  turn : ∀ fact, renderedTurn context (view.live.mapValues fun _ entry ↦ entry.net)
    (visibleRows context) = some fact → replica.turn = some fact

variable {view after : InterestView} {replica next : ReplicaWorld} {context : ViewerContext}
  {minted : List (EntityKey × NetId)} {nextId : ℕ} {rows : List (NetId × EntityFact)}

theorem Agrees.start (epoch own : SessionEpoch) :
    Agrees (InterestView.new epoch) (ReplicaWorld.new own) where
  coherent := InterestView.coherent_new epoch
  wellFormed := ReplicaWorld.wellFormed_new own
  bounded := Nat.zero_le _
  disclosed net := by simp [ReplicaWorld.row?, ReplicaWorld.new, Entries.lookup,
    InterestView.netId, InterestView.new]
  health key entry health hlive := by simp [InterestView.new] at hlive
  turn fact hturn := by simp [InterestView.new] at hturn
  mark := by simp [InterestView.new, ReplicaWorld.new]

/-- The view after a projection, whichever list its leaves were taken in. -/
structure Settled (view : InterestView) (context : ViewerContext)
    (minted : List (EntityKey × NetId)) (nextId : ℕ) (rows : List (NetId × EntityFact))
    (after : InterestView) : Prop where
  live : ∀ key entry, after.live.get? key = some entry ↔
    ∃ fact, (entry.net, fact) ∈ rows ∧ fact.key = key ∧ entry.lastHealth = renderedHealth fact
  coherent : after.Coherent
  turn : after.lastTurn =
    renderedTurn context (view.resolvedIds minted) (visibleRows context)
  nextId : after.nextId = nextId

theorem Settled.netId_iff (hsettled : Settled view context minted nextId rows after)
    (key : EntityKey) (net : NetId) :
    after.netId key = some net ↔ ∃ fact, (net, fact) ∈ rows ∧ fact.key = key := by
  unfold InterestView.netId
  rw [Option.map_eq_some_iff]
  constructor
  · rintro ⟨entry, hentry, rfl⟩
    obtain ⟨fact, hrow, hkey, -⟩ := (hsettled.live key entry).mp hentry
    exact ⟨fact, hrow, hkey⟩
  · rintro ⟨fact, hrow, hkey⟩
    exact ⟨⟨net, renderedHealth fact⟩, (hsettled.live key _).mpr ⟨fact, hrow, hkey, rfl⟩, rfl⟩

section

variable (hplan : view.Planned context minted nextId rows)
include hplan

theorem Settled.renderedTurn_eq (hsettled : Settled view context minted nextId rows after) :
    renderedTurn context (after.live.mapValues fun _ entry ↦ entry.net) (visibleRows context) =
      renderedTurn context (view.resolvedIds minted) (visibleRows context) := by
  have hids (key : EntityKey) (hvisible : (visibleRows context).contains key) :
      (after.live.mapValues fun _ entry ↦ entry.net).get? key =
        (view.resolvedIds minted).get? key := by
    obtain ⟨fact, hfact⟩ := Option.isSome_iff_exists.mp hvisible
    obtain ⟨rfl, -⟩ := visibleRows_spec hfact
    refine Option.ext fun net ↦ ?_
    have hlive : (after.live.mapValues fun _ entry ↦ entry.net).get? fact.key =
        after.netId fact.key := BTreeMap.get?_mapValues ..
    rw [hlive, hsettled.netId_iff]
    constructor
    · rintro ⟨other, hrow, hkey⟩
      exact hkey ▸ ((hplan.mem_rows net other).mp hrow).2
    · exact fun hid ↦ ⟨fact, (hplan.mem_rows net fact).mpr ⟨hfact, hid⟩, rfl⟩
  unfold renderedTurn
  split_ifs
  · rfl
  · refine congrArg context.turn.bind (funext fun turn ↦ ?_)
    split_ifs
    · rfl
    · refine congrArg (fun active ↦ some (⟨active, turn.round⟩ : TurnFact)) ?_
      refine congrArg turn.active.bind (funext fun entity ↦ ?_)
      split_ifs with hvisible
      · exact hids _ hvisible
      · rfl

theorem renderedTurn_active {fact : TurnFact} {net : NetId}
    (hturn : renderedTurn context (view.resolvedIds minted) (visibleRows context) = some fact)
    (hactive : fact.active = some net) : ∃ row, (net, row) ∈ rows := by
  unfold renderedTurn at hturn
  split_ifs at hturn
  obtain ⟨turn, -, hshown⟩ := Option.bind_eq_some_iff.mp hturn
  split_ifs at hshown
  rw [← Option.some.inj hshown] at hactive
  obtain ⟨entity, -, hid⟩ := Option.bind_eq_some_iff.mp hactive
  split_ifs at hid with hvisible
  obtain ⟨row, hrow⟩ := Option.isSome_iff_exists.mp hvisible
  obtain ⟨hkey, -⟩ := visibleRows_spec hrow
  exact ⟨row, (hplan.mem_rows net row).mpr ⟨hkey ▸ hrow, hkey ▸ hid⟩⟩

theorem Settled.agrees (hsettled : Settled view context minted nextId rows after)
    (hnext : next.WellFormed) (hrows : ∀ net, (next.row? net).isSome ↔ ∃ fact, (net, fact) ∈ rows)
    (hhealth : ∀ net fact health, (net, fact) ∈ rows → renderedHealth fact = some health →
      next.row? net = some (some health))
    (hturn : ∀ fact, renderedTurn context (view.resolvedIds minted) (visibleRows context) =
      some fact → next.turn = some fact) (hmark : next.highWater < nextId) : Agrees after next where
  coherent := hsettled.coherent
  wellFormed := hnext
  bounded := by
    have hnodup : (next.entities.map ReplicaEntity.netId).Nodup :=
      pairwise_map.mpr (hnext.ascending.imp fun h ↦ ne_of_lt h)
    have hsubset : next.entities.map ReplicaEntity.netId ⊆ rows.map Prod.fst := by
      intro net hnet
      obtain ⟨⟨found, health⟩, hmem, rfl⟩ := mem_map.mp hnet
      have hrow : next.row? found = some health :=
        hnext.row?_eq_some_iff.mpr (List.mem_iff_getElem?.mp hmem)
      obtain ⟨fact, hfact⟩ := (hrows found).mp (Option.isSome_iff_exists.mpr ⟨_, hrow⟩)
      exact mem_map.mpr ⟨_, hfact, rfl⟩
    have hlength := (List.subperm_of_subset hnodup hsubset).length_le
    rw [length_map, length_map] at hlength
    exact le_trans hlength hplan.length_rows
  disclosed net := by
    rw [hrows]
    simp only [hsettled.netId_iff]
    exact ⟨fun ⟨fact, hrow⟩ ↦ ⟨fact.key, fact, hrow, rfl⟩, fun ⟨_, fact, hrow, _⟩ ↦ ⟨fact, hrow⟩⟩
  health key entry health hlive hlast := by
    obtain ⟨fact, hrow, -, hrendered⟩ := (hsettled.live key entry).mp hlive
    exact hhealth entry.net fact health hrow (hrendered ▸ hlast)
  turn fact hlast := hturn fact (hsettled.turn ▸ hlast)
  mark := hsettled.nextId ▸ hmark

theorem Settled.shows (hsettled : Settled view context minted nextId rows after)
    (hagrees : Agrees after next) : Shows context after next where
  ids net := by
    rw [← hagrees.disclosed, ← hagrees.wellFormed.entity_eq, Option.isSome_map]
  presence key := by
    rw [Option.isSome_iff_exists]
    simp only [hsettled.netId_iff]
    constructor
    · rintro ⟨net, fact, hrow, rfl⟩
      exact Option.isSome_iff_exists.mpr ⟨fact, ((hplan.mem_rows net fact).mp hrow).1⟩
    · intro hvisible
      obtain ⟨net, hid⟩ := hplan.resolved_visible hvisible
      obtain ⟨fact, hfact⟩ := Option.isSome_iff_exists.mp hvisible
      obtain ⟨rfl, -⟩ := visibleRows_spec hfact
      exact ⟨net, fact, (hplan.mem_rows net fact).mpr ⟨hfact, hid⟩, rfl⟩
  health key fact health hvisible hrendered := by
    obtain ⟨rfl, -⟩ := visibleRows_spec hvisible
    obtain ⟨net, hid⟩ := hplan.resolved_visible (Option.isSome_iff_exists.mpr ⟨_, hvisible⟩)
    have hrow := (hplan.mem_rows net fact).mpr ⟨hvisible, hid⟩
    refine ⟨net, (hsettled.netId_iff _ _).mpr ⟨fact, hrow, rfl⟩, ?_⟩
    have hstored := hagrees.health fact.key ⟨net, renderedHealth fact⟩ health
      ((hsettled.live _ _).mpr ⟨fact, hrow, rfl, rfl⟩) hrendered
    exact hagrees.wellFormed.entity_of_row? hstored
  turn fact hturn := hagrees.turn fact <| by
    rw [hsettled.turn, ← hsettled.renderedTurn_eq hplan, hturn]

end

/-! ### One projection -/

/-- The operations of a delta projection, from its plan. -/
def plannedOps (view : InterestView) (context : ViewerContext)
    (minted : List (EntityKey × NetId)) (rows : List (NetId × EntityFact)) : List DeltaOp :=
  minted.map (fun pair ↦ DeltaOp.entityEnter pair.2) ++ rows.filterMap view.healthOp ++
    view.turnOps context (renderedTurn context (view.resolvedIds minted) (visibleRows context)) ++
    (sortByNet Prod.fst (view.hidden (visibleRows context))).map (InterestView.leaveOp context)

theorem InterestView.projectDelta_ok (hview : view.Coherent) {projection : StateProjection}
    (hproject : view.projectDelta context = some (.ok (projection, after))) :
    ∃ minted nextId rows, view.Planned context minted nextId rows ∧
      Settled view context minted nextId rows after ∧
      projection.ops = plannedOps view context minted rows := by
  unfold projectDelta at hproject
  split at hproject
  · cases hproject
  next hvalid =>
  dsimp only at hproject
  split at hproject
  · cases hproject
  next minted nextId hmint =>
  obtain ⟨rows, hrows, hresult⟩ := Option.map_eq_some_iff.mp hproject
  have hplan : view.Planned context minted nextId rows := ⟨hvalid, hmint, hrows⟩
  rw [Except.ok.injEq, Prod.mk.injEq] at hresult
  obtain ⟨hprojection, hafter⟩ := hresult
  have hperm := sortByNet_perm Prod.fst (view.hidden (visibleRows context))
  have henters := sortByNet_of_ascending hplan.ascending
  rw [henters] at hprojection hafter
  have hfields : after.live = (((view.forget (sortByNet Prod.fst
        (view.hidden (visibleRows context)))).enter minted).recordHealth rows).live ∧
      after.index = (((view.forget (sortByNet Prod.fst
        (view.hidden (visibleRows context)))).enter minted).recordHealth rows).index ∧
      after.lastTurn = renderedTurn context (view.resolvedIds minted) (visibleRows context) ∧
      after.nextId = nextId := by
    rw [← hafter]
    split_ifs
    · exact ⟨rfl, rfl, rfl, rfl⟩
    · exact ⟨rfl, rfl, rfl, rfl⟩
  obtain ⟨hlive, hindex, hturn, hnext⟩ := hfields
  refine ⟨minted, nextId, rows, hplan, ⟨fun key entry ↦ ?_,
    hplan.coherent_settled hview hperm hlive hindex hnext, hturn, hnext⟩, ?_⟩
  · rw [hlive]
    exact hplan.live_settled hperm key entry
  · rw [← hprojection]
    rfl

theorem InterestView.projectSnapshot_ok (hview : view.Coherent) {projection : SnapshotProjection}
    (hproject : view.projectSnapshot context = some (.ok (projection, after))) :
    ∃ minted nextId rows, view.Planned context minted nextId rows ∧
      Settled view context minted nextId rows after ∧
      projection.body = ⟨rows.map fun row ↦ ⟨row.1, renderedHealth row.2⟩,
        renderedTurn context (view.resolvedIds minted) (visibleRows context)⟩ := by
  unfold projectSnapshot at hproject
  split at hproject
  · cases hproject
  next hvalid =>
  dsimp only at hproject
  split at hproject
  · cases hproject
  next minted nextId hmint =>
  obtain ⟨rows, hrows, hresult⟩ := Option.map_eq_some_iff.mp hproject
  have hplan : view.Planned context minted nextId rows := ⟨hvalid, hmint, hrows⟩
  rw [Except.ok.injEq, Prod.mk.injEq] at hresult
  obtain ⟨hprojection, hafter⟩ := hresult
  subst hafter
  refine ⟨minted, nextId, rows, hplan, ⟨fun key entry ↦ ?_,
    hplan.coherent_settled hview (List.Perm.refl _) rfl rfl rfl, rfl, rfl⟩, ?_⟩
  · exact hplan.live_settled (List.Perm.refl _) key entry
  · rw [← hprojection]

/-- The operations of a delta projection take the replica from agreeing with the view before it to
agreeing with the view after it. -/
theorem Agrees.applyOps_planned (hagrees : Agrees view replica)
    (hplan : view.Planned context minted nextId rows)
    (hsettled : Settled view context minted nextId rows after) :
    ∃ next, replica.applyOps ((plannedOps view context minted rows).map .legacy) = .ok next ∧
      Agrees after next := by
  have hcoherent := hagrees.coherent
  set removed := sortByNet Prod.fst (view.hidden (visibleRows context)) with hremoved
  have hperm : removed.Perm (view.hidden (visibleRows context)) := sortByNet_perm _ _
  have hgone (net : NetId) : net ∈ removed.map Prod.fst ↔
      net ∈ (view.hidden (visibleRows context)).map Prod.fst := (hperm.map _).mem_iff
  have hrowNets : (rows.map Prod.fst).Nodup :=
    pairwise_map.mpr ((hplan.rows_ascending hcoherent).imp fun h ↦ ne_of_lt h)
  -- Entries: the minted ids are above the mark, and both sides are bounded by the visible limit.
  obtain ⟨entered, henters, hwell₁, hmark₁, hturn₁, hrows₁⟩ :=
    ReplicaWorld.applyOps_enters hagrees.wellFormed (minted.map Prod.snd)
      (pairwise_map.mpr hplan.ascending)
      (fun net hnet ↦ by
        obtain ⟨pair, hpair, rfl⟩ := mem_map.mp hnet
        exact lt_of_lt_of_le hagrees.mark (hplan.bounds hpair).1)
      (by
        rw [length_map, maxReplicaEntities]
        have hbounded := hagrees.bounded
        have hminted := hplan.length_minted
        omega)
      nextId
      (lt_of_lt_of_le hagrees.mark (hplan.nextId_eq ▸ Nat.le_add_right _ _))
      (fun net hnet ↦ by
        obtain ⟨pair, hpair, rfl⟩ := mem_map.mp hnet
        exact (hplan.bounds hpair).2)
  have hentered (net : NetId) : (entered.row? net).isSome ↔
      net ∈ minted.map Prod.snd ∨ ∃ key, view.netId key = some net := by
    rw [hrows₁, ← hagrees.disclosed]
    split_ifs with hmem <;> simp [hmem]
  have hrowLive : ∀ row ∈ rows, (entered.row? row.1).isSome := by
    intro row hrow
    rw [hentered]
    rcases (hplan.resolved _ _).mp ((hplan.mem_rows row.1 row.2).mp hrow).2 with hold | hnew
    · exact Or.inr ⟨_, hold⟩
    · exact Or.inl (mem_map.mpr ⟨_, hnew, rfl⟩)
  -- Health: every rendered row is live by now.
  obtain ⟨healed, hhealths, hwell₂, hmark₂, hturn₂, hothers₂, hrows₂⟩ :=
    ReplicaWorld.applyOps_healths view hwell₁ hrowNets hrowLive
  have hhealed (net : NetId) : (healed.row? net).isSome = (entered.row? net).isSome := by
    by_cases hmem : net ∈ rows.map Prod.fst
    · obtain ⟨row, hrow, rfl⟩ := mem_map.mp hmem
      rw [hrows₂ row hrow]
      split_ifs
      · exact (hrowLive row hrow).symm
      · rfl
    · rw [hothers₂ net hmem]
  -- Turn: its active id is the id of a rendered row.
  obtain ⟨shown, hturnOps, hshown⟩ := ReplicaWorld.applyOps_turn view context
    hwell₂ (renderedTurn context (view.resolvedIds minted) (visibleRows context))
    (fun fact net hfact hactive ↦ by
      obtain ⟨row, hrow⟩ := renderedTurn_active hplan hfact hactive
      rw [hhealed]
      exact hrowLive _ hrow)
    (fun fact hfact ↦ (hturn₂.trans hturn₁).trans (hagrees.turn fact hfact))
  -- Leaves: the hidden ids were live all along.
  obtain ⟨next, hleaves, hwell₄, hmark₄, hturn₄, hrows₄⟩ :=
    ReplicaWorld.applyOps_leaves context
      (show ReplicaWorld.WellFormed { healed with turn := shown } from
        ⟨hwell₂.ascending, hwell₂.highWater⟩)
      ((hperm.map _).nodup_iff.mpr (hcoherent.nodup_hidden _))
      (fun pair hpair ↦ by
        change (healed.row? pair.1).isSome
        rw [hhealed, hentered]
        exact Or.inr ⟨pair.2, (InterestView.mem_hidden.mp (hperm.mem_iff.mp hpair)).1⟩)
  refine ⟨next, ?_, hsettled.agrees hplan hwell₄ (fun net ↦ ?_)
    (fun net fact health hrow hrendered ↦ ?_) (fun fact hfact ↦ hturn₄.trans (hshown fact hfact)) ?_⟩
  · have henters' : replica.applyOps
        ((minted.map fun pair ↦ DeltaOp.entityEnter pair.2).map .legacy) = .ok entered := by
      rw [map_map] at henters ⊢
      exact henters
    unfold plannedOps
    rw [map_append, map_append, map_append]
    rw [ReplicaWorld.applyOps_append (ReplicaWorld.applyOps_append
      (ReplicaWorld.applyOps_append henters' |>.trans hhealths) |>.trans hturnOps)]
    exact hleaves
  · rw [hrows₄]
    change (if net ∈ removed.map Prod.fst then none else healed.row? net).isSome ↔ _
    split_ifs with hleft
    · simp only [Option.isSome_none, Bool.false_eq_true, false_iff, not_exists]
      exact fun fact ↦ hplan.hidden_not_row hcoherent ((hgone net).mp hleft)
    · rw [hhealed, hentered]
      refine ⟨fun hlive ↦ hplan.row_of_not_hidden hlive (mt (hgone net).mpr hleft), ?_⟩
      exact fun ⟨fact, hrow⟩ ↦ (hentered net).mp (hrowLive _ hrow)
  · have hkept : net ∉ removed.map Prod.fst := fun hleft ↦
      hplan.hidden_not_row hcoherent ((hgone net).mp hleft) hrow
    rw [hrows₄, if_neg hkept]
    change healed.row? net = _
    rw [hrows₂ _ hrow]
    split_ifs with hsent
    · rw [hrendered]
    · -- Not sent: the view rendered this health before, so the replica stores it already.
      obtain ⟨entry, hentry, hlast⟩ := InterestView.healthOp_eq_none
        (Option.not_isSome_iff_eq_none.mp hsent) hrendered
      have hnet : view.netId fact.key = some entry.net := by simp [InterestView.netId, hentry]
      have hid := ((hplan.mem_rows net fact).mp hrow).2
      rw [(hplan.resolved _ _).mpr (Or.inl hnet), Option.some.injEq] at hid
      have hold : net ∉ minted.map Prod.snd := by
        intro hmem
        obtain ⟨pair, hpair, hsame⟩ := mem_map.mp hmem
        exact hplan.fresh hcoherent hpair fact.key (by rw [hnet, hid, hsame])
      rw [hrows₁, if_neg hold, ← hid]
      exact hagrees.health _ _ _ hentry hlast
  · rw [hmark₄]
    exact lt_of_eq_of_lt hmark₂ hmark₁

/-- The rows of a snapshot in strict id order, each live or above the mark, pass the check. -/
theorem ReplicaWorld.checkRows_ok {rows : List SnapshotEntity} {previous : Option NetId}
    (hascending : rows.Pairwise fun first second ↦ first.entity < second.entity)
    (hprevious : ∀ net ∈ previous, ∀ row ∈ rows, net < row.entity)
    (hrows : ∀ row ∈ rows, replica.highWater < row.entity ∨
      (replica.indexOf row.entity).isSome) : replica.checkRows previous rows = .ok () := by
  induction rows generalizing previous with
  | nil => rfl
  | cons row rest ih =>
    rw [List.pairwise_cons] at hascending
    have horder : ¬ previous.any (row.entity ≤ ·) := by
      cases previous with
      | none => simp
      | some net => simpa using hprevious net rfl row (mem_cons_self ..)
    have hunused : ¬ ((row.entity : ℕ) ≤ replica.highWater ∧
        replica.indexOf row.entity = none) := by
      rintro ⟨hold, hdead⟩
      rcases hrows row (mem_cons_self ..) with hfresh | hlive
      · exact absurd hold (not_le.mpr hfresh)
      · rw [hdead] at hlive
        cases hlive
    unfold checkRows
    rw [if_neg horder, if_neg hunused]
    refine ih hascending.2 (fun net hnet other hother ↦ ?_)
      fun other hother ↦ hrows other (mem_cons_of_mem _ hother)
    rw [Option.mem_some_iff] at hnet
    exact hnet ▸ hascending.1 other hother

/-- The mark after a snapshot with ascending rows: no row lies above it, and it stays below every
bound of the old mark and the rows. -/
theorem ReplicaWorld.snapshotMark_spec {rows : List SnapshotEntity}
    (hascending : rows.Pairwise fun first second ↦ first.entity < second.entity) (water : ℕ) :
    (∀ row ∈ rows, (row.entity : ℕ) ≤ match rows.getLast? with
      | some row => max water (row.entity : ℕ)
      | none => water) ∧
    ∀ bound, water < bound → (∀ row ∈ rows, (row.entity : ℕ) < bound) →
      (match rows.getLast? with
      | some row => max water (row.entity : ℕ)
      | none => water) < bound := by
  split
  next last hlast =>
    obtain ⟨front, rfl⟩ := List.getLast?_eq_some_iff.mp hlast
    refine ⟨fun row hrow ↦ le_max_of_le_right ?_, fun bound hwater hbound ↦
      max_lt hwater (hbound last (List.mem_append_right _ (List.mem_singleton_self _)))⟩
    rcases List.mem_append.mp hrow with hfront | htail
    · have horder := (List.pairwise_append.mp hascending).2.2 row hfront last
        (List.mem_singleton_self _)
      exact le_of_lt (PNat.coe_lt_coe _ _ |>.mpr horder)
    · rw [List.mem_singleton.mp htail]
  next hnone =>
    rw [List.getLast?_eq_none_iff] at hnone
    subst hnone
    exact ⟨fun row hrow ↦ (List.not_mem_nil hrow).elim, fun bound hwater _ ↦ hwater⟩

variable {publication : Publication}

theorem Agrees.applySnapshot_planned (hagrees : Agrees view replica)
    (hplan : view.Planned context minted nextId rows)
    (hsettled : Settled view context minted nextId rows after)
    (hbody : publication.body = ⟨rows.map fun row ↦ ⟨row.1, renderedHealth row.2⟩,
      renderedTurn context (view.resolvedIds minted) (visibleRows context)⟩)
    (hcursor : replica.nextEventSeq - 1 ≤ publication.cursor)
    (hlast : publication.cursor ≤ seqLast) :
    ∃ next, replica.applySnapshot publication = .ok next ∧ Agrees after next := by
  have hcoherent := hagrees.coherent
  have hascending := hplan.rows_ascending hcoherent
  have hresolved : ∀ row ∈ rows, (row.1 : ℕ) < nextId ∧ (replica.highWater < row.1 ∨
      (replica.indexOf row.1).isSome) := by
    intro row hrow
    rcases (hplan.resolved _ _).mp ((hplan.mem_rows row.1 row.2).mp hrow).2 with hold | hnew
    · refine ⟨lt_of_lt_of_le (hcoherent.minted _ _ hold)
        (hplan.nextId_eq ▸ Nat.le_add_right _ _), Or.inr ?_⟩
      rw [hagrees.wellFormed.indexOf_isSome, hagrees.disclosed]
      exact ⟨_, hold⟩
    · exact ⟨(hplan.bounds hnew).2, Or.inl (lt_of_lt_of_le hagrees.mark (hplan.bounds hnew).1)⟩
  have hcheck : replica.checkRows none (rows.map fun row ↦ ⟨row.1, renderedHealth row.2⟩) =
      .ok () := by
    refine ReplicaWorld.checkRows_ok (pairwise_map.mpr hascending)
      (fun net hnet ↦ by cases hnet) fun row hrow ↦ ?_
    obtain ⟨source, hsource, rfl⟩ := mem_map.mp hrow
    exact (hresolved source hsource).2
  have hactive : (((renderedTurn context (view.resolvedIds minted) (visibleRows context)).bind
      TurnFact.active).filter fun active ↦ !(rows.map fun row ↦
        (⟨row.1, renderedHealth row.2⟩ : SnapshotEntity)).any (fun row ↦ row.entity = active)) =
      none := by
    rw [Option.filter_eq_none_iff]
    intro active hsome
    obtain ⟨fact, hfact, hactive⟩ := Option.bind_eq_some_iff.mp hsome
    obtain ⟨row, hrow⟩ := renderedTurn_active hplan hfact hactive
    simp only [Bool.not_eq_true, Bool.not_eq_false', List.any_eq_true, decide_eq_true_eq]
    exact ⟨_, mem_map.mpr ⟨_, hrow, rfl⟩, rfl⟩
  set mark := match (rows.map fun row ↦
      (⟨row.1, renderedHealth row.2⟩ : SnapshotEntity)).getLast? with
    | some row => max replica.highWater (row.entity : ℕ)
    | none => replica.highWater with hmark
  refine ⟨{ replica with
    entities := rows.map fun row ↦ ⟨row.1, renderedHealth row.2⟩
    turn := renderedTurn context (view.resolvedIds minted) (visibleRows context)
    nextEventSeq := publication.cursor + 1
    serverTick := publication.baseTick
    highWater := mark }, ?_, ?_⟩
  · unfold ReplicaWorld.applySnapshot
    dsimp only
    rw [if_neg (by omega), hbody]
    dsimp only
    rw [if_neg (by rw [length_map]; exact not_lt.mpr hplan.length_rows), hcheck, hactive]
    simp only [map_map]
    rfl
  · have hshown : (rows.map fun row ↦
        (⟨row.1, renderedHealth row.2⟩ : SnapshotEntity)).Pairwise
        fun first second ↦ first.entity < second.entity := pairwise_map.mpr hascending
    obtain ⟨habove, hbelow⟩ := ReplicaWorld.snapshotMark_spec hshown replica.highWater
    have hwell : ReplicaWorld.WellFormed { replica with
        entities := rows.map fun row ↦ ⟨row.1, renderedHealth row.2⟩
        turn := renderedTurn context (view.resolvedIds minted) (visibleRows context)
        nextEventSeq := publication.cursor + 1
        serverTick := publication.baseTick
        highWater := mark } := by
      refine ⟨pairwise_map.mpr hascending, fun row hrow ↦ ?_⟩
      obtain ⟨source, hsource, rfl⟩ := mem_map.mp hrow
      exact habove _ (mem_map.mpr ⟨source, hsource, rfl⟩)
    have hmem (net : NetId) (health : Option HealthFact) :
        ReplicaWorld.row? { replica with
          entities := rows.map fun row ↦ ⟨row.1, renderedHealth row.2⟩
          turn := renderedTurn context (view.resolvedIds minted) (visibleRows context)
          nextEventSeq := publication.cursor + 1
          serverTick := publication.baseTick
          highWater := mark } net = some health ↔
        ∃ fact, (net, fact) ∈ rows ∧ renderedHealth fact = health := by
      rw [hwell.row?_eq_some_iff, ← List.mem_iff_getElem?, mem_map]
      simp only [ReplicaEntity.mk.injEq, Prod.exists]
      constructor
      · rintro ⟨found, fact, hrow, rfl, hhealth⟩
        exact ⟨fact, hrow, hhealth⟩
      · exact fun ⟨fact, hrow, hhealth⟩ ↦ ⟨net, fact, hrow, rfl, hhealth⟩
    refine hsettled.agrees hplan hwell (fun net ↦ ?_) (fun net fact health hrow hrendered ↦ ?_)
      (fun fact hfact ↦ hfact) (hbelow nextId ?_ ?_)
    · rw [Option.isSome_iff_exists]
      simp only [hmem]
      exact ⟨fun ⟨_, fact, hrow, _⟩ ↦ ⟨fact, hrow⟩, fun ⟨fact, hrow⟩ ↦ ⟨_, fact, hrow, rfl⟩⟩
    · exact (hmem net (some health)).mpr ⟨fact, hrow, hrendered⟩
    · exact lt_of_lt_of_le hagrees.mark (hplan.nextId_eq ▸ Nat.le_add_right _ _)
    · intro row hrow
      obtain ⟨source, hsource, rfl⟩ := mem_map.mp hrow
      exact (hresolved source hsource).1

/-! ### Every history -/

/-- The pairs of a view and a replica reached by projections that were delivered: snapshots
published at a cursor the replica has not passed, and deltas cut into frames anywhere. -/
inductive Delivered (epoch own : SessionEpoch) : InterestView → ReplicaWorld → Prop
  | start : Delivered epoch own (InterestView.new epoch) (ReplicaWorld.new own)
  | snapshot {view after : InterestView} {replica next : ReplicaWorld} {context : ViewerContext}
      {projection : SnapshotProjection} {publication : Publication} :
      Delivered epoch own view replica →
      view.projectSnapshot context = some (.ok (projection, after)) →
      publication.body = projection.body →
      replica.applySnapshot publication = .ok next → Delivered epoch own after next
  | delta {view after : InterestView} {replica next : ReplicaWorld} {context : ViewerContext}
      {projection : StateProjection} {frames : List DeltaFrameV2} :
      Delivered epoch own view replica →
      view.projectDelta context = some (.ok (projection, after)) →
      ReplicaWorld.Cut projection.ops replica.nextEventSeq frames →
      replica.applyFrames frames = .ok next → Delivered epoch own after next

theorem Agrees.placed (hagrees : Agrees view replica) (seq tick : ℕ) :
    Agrees view (replica.placed seq tick) where
  coherent := hagrees.coherent
  wellFormed := ⟨hagrees.wellFormed.ascending, hagrees.wellFormed.highWater⟩
  bounded := hagrees.bounded
  disclosed := hagrees.disclosed
  health := hagrees.health
  turn := hagrees.turn
  mark := hagrees.mark

/-- A delivered delta is accepted, shown, and keeps agreement. -/
theorem Agrees.delta (hagrees : Agrees view replica) {projection : StateProjection}
    (hproject : view.projectDelta context = some (.ok (projection, after)))
    {frames : List DeltaFrameV2}
    (hcut : ReplicaWorld.Cut projection.ops replica.nextEventSeq frames) :
    ∃ next, replica.applyFrames frames = .ok next ∧ Agrees after next ∧
      Shows context after next := by
  obtain ⟨minted, nextId, rows, hplan, hsettled, hops⟩ :=
    InterestView.projectDelta_ok hagrees.coherent hproject
  obtain ⟨working, hworking, hafter⟩ := hagrees.applyOps_planned hplan hsettled
  rw [← hops, ← hcut.ops] at hworking
  obtain ⟨seq, tick, hframes⟩ := ReplicaWorld.applyFrames_eq_ok hworking hcut.lane hcut.limit
    hcut.sequence hcut.last
  exact ⟨_, hframes, hafter.placed seq tick, hsettled.shows hplan (hafter.placed seq tick)⟩

/-- A delivered snapshot is accepted, shown, and keeps agreement. -/
theorem Agrees.snapshot (hagrees : Agrees view replica) {projection : SnapshotProjection}
    (hproject : view.projectSnapshot context = some (.ok (projection, after)))
    (hbody : publication.body = projection.body)
    (hcursor : replica.nextEventSeq - 1 ≤ publication.cursor)
    (hlast : publication.cursor ≤ seqLast) :
    ∃ next, replica.applySnapshot publication = .ok next ∧ Agrees after next ∧
      Shows context after next := by
  obtain ⟨minted, nextId, rows, hplan, hsettled, hrendered⟩ :=
    InterestView.projectSnapshot_ok hagrees.coherent hproject
  obtain ⟨next, hnext, hafter⟩ := hagrees.applySnapshot_planned hplan hsettled
    (hbody.trans hrendered) hcursor hlast
  exact ⟨next, hnext, hafter, hsettled.shows hplan hafter⟩

theorem ReplicaWorld.cursor_of_applySnapshot
    (hnext : replica.applySnapshot publication = .ok next) :
    replica.nextEventSeq - 1 ≤ publication.cursor ∧ publication.cursor ≤ seqLast := by
  unfold applySnapshot at hnext
  dsimp only at hnext
  split_ifs at hnext with hcursor
  omega

theorem Delivered.agrees {epoch own : SessionEpoch} (hdelivered : Delivered epoch own view replica) :
    Agrees view replica := by
  induction hdelivered with
  | start => exact Agrees.start epoch own
  | snapshot _ hproject hbody hnext ih =>
    obtain ⟨hcursor, hlast⟩ := ReplicaWorld.cursor_of_applySnapshot hnext
    obtain ⟨found, hfound, hafter, -⟩ := ih.snapshot hproject hbody hcursor hlast
    rw [hnext, Except.ok.injEq] at hfound
    exact hfound ▸ hafter
  | delta _ hproject hcut hnext ih =>
    obtain ⟨found, hfound, hafter, -⟩ := ih.delta hproject hcut
    rw [hnext, Except.ok.injEq] at hfound
    exact hfound ▸ hafter

/-- A replica that follows a view accepts whatever the view projects next, as a snapshot or as a
delta cut into frames at any boundaries, and then shows that projection's context: its ids are the
view's live ones, present exactly for the visible rows, with the rendered health and turn stored. -/
theorem Delivered.accepts_and_shows {epoch own : SessionEpoch} {view : InterestView}
    {replica : ReplicaWorld} (hdelivered : Delivered epoch own view replica) :
    (∀ context projection after publication,
      view.projectSnapshot context = some (.ok (projection, after)) →
      publication.body = projection.body → replica.nextEventSeq - 1 ≤ publication.cursor →
      publication.cursor ≤ seqLast →
      ∃ next, replica.applySnapshot publication = .ok next ∧ Delivered epoch own after next ∧
        Shows context after next) ∧ ∀ context projection after frames,
      view.projectDelta context = some (.ok (projection, after)) →
      ReplicaWorld.Cut projection.ops replica.nextEventSeq frames →
      ∃ next, replica.applyFrames frames = .ok next ∧ Delivered epoch own after next ∧
        Shows context after next := by
  refine ⟨fun context projection after publication hproject hbody hcursor hlast ↦ ?_,
    fun context projection after frames hproject hcut ↦ ?_⟩
  · obtain ⟨next, hnext, -, hshows⟩ := hdelivered.agrees.snapshot hproject hbody hcursor hlast
    exact ⟨next, hnext, hdelivered.snapshot hproject hbody hnext, hshows⟩
  · obtain ⟨next, hnext, -, hshows⟩ := hdelivered.agrees.delta hproject hcut
    exact ⟨next, hnext, hdelivered.delta hproject hcut hnext, hshows⟩

/-! ### A first projection -/

theorem InterestView.Planned.projectDelta (hplan : view.Planned context minted nextId rows) :
    ∃ projection after, view.projectDelta context = some (.ok (projection, after)) ∧
      projection.ops = plannedOps view context minted rows := by
  unfold InterestView.projectDelta
  simp only [hplan.valid, hplan.mint, hplan.rows, Option.map_some,
    sortByNet_of_ascending hplan.ascending]
  exact ⟨_, _, rfl, rfl⟩

theorem InterestView.Planned.projectSnapshot (hplan : view.Planned context minted nextId rows) :
    ∃ projection after, view.projectSnapshot context = some (.ok (projection, after)) ∧
      projection.body = ⟨rows.map fun row ↦ ⟨row.1, renderedHealth row.2⟩,
        renderedTurn context (view.resolvedIds minted) (visibleRows context)⟩ := by
  unfold InterestView.projectSnapshot
  simp only [hplan.valid, hplan.mint, hplan.rows, Option.map_some]
  exact ⟨_, _, rfl, rfl⟩

/-- A viewer that sees a wounded creature of its area, one whose health is kept from it and a dead
one, but neither a hidden one nor one of another area. -/
def sampleContext (epoch : SessionEpoch) : ViewerContext :=
  ⟨epoch, 5, 0, [⟨⟨0, ⟨7, 2⟩⟩, ⟨true, true⟩, some ⟨0, 12, true⟩, false⟩,
    ⟨⟨0, ⟨3, 1⟩⟩, ⟨true, true⟩, some ⟨9, 10, false⟩, false⟩,
    ⟨⟨0, ⟨4, 1⟩⟩, ⟨true, false⟩, some ⟨5, 5, false⟩, false⟩,
    ⟨⟨0, ⟨5, 1⟩⟩, ⟨false, true⟩, some ⟨8, 8, false⟩, false⟩,
    ⟨⟨1, ⟨6, 1⟩⟩, ⟨true, true⟩, some ⟨8, 8, false⟩, false⟩], [], some ⟨0, some ⟨3, 1⟩, 2⟩, true,
    false⟩

def thirdId : NetId := Nat.succPNat 2

/-- The rows it sees, by key. -/
def sampleRows : List (NetId × EntityFact) :=
  [(1, ⟨⟨0, ⟨3, 1⟩⟩, ⟨true, true⟩, some ⟨9, 10, false⟩, false⟩),
    (2, ⟨⟨0, ⟨4, 1⟩⟩, ⟨true, false⟩, some ⟨5, 5, false⟩, false⟩),
    (thirdId, ⟨⟨0, ⟨7, 2⟩⟩, ⟨true, true⟩, some ⟨0, 12, true⟩, false⟩)]

theorem planned_sample : (InterestView.new (Vector.replicate 16 7)).Planned
    (sampleContext (Vector.replicate 16 7)) (sampleRows.map fun row ↦ (row.2.key, row.1)) 4
    sampleRows where
  valid := by decide +kernel
  mint := by decide +kernel
  rows := by
    have hrows : identifyRows ((InterestView.new (Vector.replicate 16 7)).resolvedIds
        (sampleRows.map fun row ↦ (row.2.key, row.1)))
        (visibleRows (sampleContext (Vector.replicate 16 7))).entries = some sampleRows := by
      decide +kernel
    rw [renderedRows, hrows, Option.map_some, sortByNet_of_ascending (by decide)]

def sampleFrames : List DeltaFrameV2 :=
  [⟨laneCombat, 5, 1, [.legacy (.entityEnter 1), .legacy (.entityEnter 2),
      .legacy (.entityEnter thirdId)]⟩,
    ⟨laneCombat, 5, 2, [.legacy (.health 1 9 10 false), .legacy (.health thirdId 0 12 true),
      .legacy (.turn (some 1) 2)]⟩]

theorem cut_sample : ReplicaWorld.Cut (plannedOps (InterestView.new (Vector.replicate 16 7))
    (sampleContext (Vector.replicate 16 7)) (sampleRows.map fun row ↦ (row.2.key, row.1)) sampleRows)
    1 sampleFrames :=
  ⟨by decide +kernel, by simp [sampleFrames], by simp [sampleFrames, maxDeltaOps], rfl, by decide⟩

/-- The first delta of the sample context, in two frames. -/
theorem Delivered.accepts_and_shows_first_delta :
    ∃ after next, (ReplicaWorld.new (Vector.replicate 16 7)).applyFrames sampleFrames = .ok next ∧
      Shows (sampleContext (Vector.replicate 16 7)) after next := by
  have hstart : Delivered (Vector.replicate 16 7) (Vector.replicate 16 7)
      (InterestView.new _) (ReplicaWorld.new _) := Delivered.start
  obtain ⟨projection, after, hproject, hops⟩ := planned_sample.projectDelta
  obtain ⟨next, hnext, -, hshows⟩ := (Delivered.accepts_and_shows hstart).2 _ _ _ sampleFrames
    hproject (hops ▸ cut_sample)
  exact ⟨after, next, hnext, hshows⟩

end Crpg.Net
