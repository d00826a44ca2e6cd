import Crpg.Net.Replica

/-!
# The client replica over a whole session

`crpg-net/src/replica.rs`. The calls a session makes on its replica are delta frames and published
snapshots, in any order, accepted or refused. A delta frame is a batch: its operations run on a
working copy, so between two calls the replica passes through one working state for each operation
of an accepted frame. `moments` lists all of them.

Two relations carry the argument. `Bounded` is what every moment satisfies: the rows are well
formed, there is room for them, and a stored active id lies under the high-water mark. `Follows`
relates an earlier moment to a later one: the mark never falls, and an id live at the later moment
was live at the earlier one or lies above its mark. `Follows` is transitive, so it relates any two
moments of a run (`pairwise_moments`); an id that was live lies under the mark from then on, hence
once it has left it is live at no later moment.
-/

set_option autoImplicit false

namespace Crpg.Net

open Crpg.Core Crpg.Lib
open List (cons_append cons_ne_nil foldl_cons forall_mem_cons mem_append mem_map mem_singleton
  pairwise_append pairwise_cons)

inductive ReplicaCall
  | applyDelta (frame : DeltaFrameV2)
  | applySnapshot (publication : Publication)

namespace ReplicaWorld

/-! ### Calls and moments -/

/-- What a call answers: the replica it commits, or why it refuses. -/
def call (replica : ReplicaWorld) : ReplicaCall → Except ReplicaError ReplicaWorld
  | .applyDelta frame => replica.applyDelta frame
  | .applySnapshot publication => replica.applySnapshot publication

/-- The replica a call leaves: the committed one, or after a refusal the one it found. -/
def after (replica : ReplicaWorld) (request : ReplicaCall) : ReplicaWorld :=
  match replica.call request with
  | .ok next => next
  | .error _ => replica

def runCalls (replica : ReplicaWorld) (requests : List ReplicaCall) : ReplicaWorld :=
  requests.foldl after replica

/-- The working states that operations pass through, one after each operation. -/
def workings (replica : ReplicaWorld) : List DeltaOpV2 → List ReplicaWorld
  | [] => []
  | op :: ops =>
    match replica.applyOp op with
    | .error _ => []
    | .ok next => next :: next.workings ops

/-- The states a call passes through: the working states of a frame if it is accepted, then the
replica the call leaves. -/
def passes (replica : ReplicaWorld) (request : ReplicaCall) : List ReplicaWorld :=
  match replica.call request, request with
  | .ok next, .applyDelta frame => replica.workings frame.ops ++ [next]
  | .ok next, .applySnapshot _ => [next]
  | .error _, _ => [replica]

/-- The states a sequence of calls passes through. -/
def moments (replica : ReplicaWorld) : List ReplicaCall → List ReplicaWorld
  | [] => []
  | request :: requests => replica.passes request ++ (replica.after request).moments requests

/-! ### What every moment satisfies -/

/-- A replica whose rows are well formed and within the limit, and whose stored active id lies
under the high-water mark. -/
structure Bounded (replica : ReplicaWorld) : Prop where
  wellFormed : replica.WellFormed
  room : replica.entities.length ≤ maxReplicaEntities
  turn : ∀ active, replica.turn.bind TurnFact.active = some active →
    (active : ℕ) ≤ replica.highWater

/-- A later moment after an earlier one: the mark has not fallen, and no id under the earlier mark
has become live. -/
structure Follows (earlier later : ReplicaWorld) : Prop where
  highWater : earlier.highWater ≤ later.highWater
  live : ∀ netId, (later.row? netId).isSome →
    (earlier.row? netId).isSome ∨ earlier.highWater < (netId : ℕ)

theorem bounded_new (epoch : SessionEpoch) : (new epoch).Bounded :=
  ⟨wellFormed_new epoch, Nat.zero_le _, fun _ hactive ↦ by simp [new] at hactive⟩

theorem Follows.refl (replica : ReplicaWorld) : replica.Follows replica :=
  ⟨le_refl _, fun _ hlive ↦ Or.inl hlive⟩

theorem Follows.trans {first second third : ReplicaWorld} (hfirst : first.Follows second)
    (hsecond : second.Follows third) : first.Follows third := by
  refine ⟨hfirst.highWater.trans hsecond.highWater, fun netId hlive ↦ ?_⟩
  rcases hsecond.live netId hlive with hmiddle | habove
  · exact hfirst.live netId hmiddle
  · exact Or.inr (lt_of_le_of_lt hfirst.highWater habove)

variable {replica next : ReplicaWorld}

/-- A live id lies under the mark. -/
theorem WellFormed.le_highWater (hreplica : replica.WellFormed) {netId : NetId}
    (hlive : (replica.row? netId).isSome) : (netId : ℕ) ≤ replica.highWater := by
  by_contra habove
  rw [hreplica.row?_eq_none (not_le.mp habove)] at hlive
  exact absurd hlive (by simp)

/-- An id that has left is live at no later moment. -/
theorem Follows.retired {first second third : ReplicaWorld} (hwell : first.WellFormed)
    (hfirst : first.Follows second) (hsecond : second.Follows third) {netId : NetId}
    (hlive : (first.row? netId).isSome) (hleft : second.row? netId = none) :
    third.row? netId = none := by
  by_contra hback
  have hunder := (hwell.le_highWater hlive).trans hfirst.highWater
  rcases hsecond.live netId (Option.isSome_iff_ne_none.mpr hback) with hmiddle | habove
  · rw [hleft] at hmiddle
    exact absurd hmiddle (by simp)
  · exact absurd hunder (not_le.mpr habove)

theorem Bounded.of_rows (hreplica : replica.Bounded) (hentities : next.entities = replica.entities)
    (hmark : next.highWater = replica.highWater)
    (hturn : ∀ active, next.turn.bind TurnFact.active = some active →
      (active : ℕ) ≤ next.highWater) : next.Bounded ∧ replica.Follows next := by
  refine ⟨⟨⟨?_, ?_⟩, ?_, hturn⟩, le_of_eq hmark.symm, fun netId hlive ↦ Or.inl ?_⟩
  · rw [hentities]
    exact hreplica.wellFormed.ascending
  · rw [hentities, hmark]
    exact hreplica.wellFormed.highWater
  · rw [hentities]
    exact hreplica.room
  · unfold row? at hlive ⊢
    rwa [hentities] at hlive

theorem requireLive_eq_ok {netId : NetId} (hnext : replica.requireLive netId = .ok next) :
    next = replica ∧ (replica.indexOf netId).isSome := by
  unfold requireLive at hnext
  split_ifs at hnext with hlive
  rw [Except.ok.injEq] at hnext
  exact ⟨hnext.symm, hlive⟩

section

variable (hreplica : replica.Bounded)
include hreplica

theorem Bounded.requireLive {netId : NetId} (hnext : replica.requireLive netId = .ok next) :
    next.Bounded ∧ replica.Follows next := by
  rw [(requireLive_eq_ok hnext).1]
  exact ⟨hreplica, Follows.refl replica⟩

theorem Bounded.entityEnter {netId : NetId}
    (hnext : replica.applyLegacy (.entityEnter netId) = .ok next) :
    next.Bounded ∧ replica.Follows next := by
  have haccepted := hnext
  simp only [applyLegacy] at haccepted
  split_ifs at haccepted with _ hused hfull
  obtain ⟨entered, hentered, hwell, hlength, hmark, hturn, hrows⟩ :=
    hreplica.wellFormed.applyLegacy_entityEnter (not_le.mp hused) (not_le.mp hfull)
  rw [hnext, Except.ok.injEq] at hentered
  subst hentered
  refine ⟨⟨hwell, ?_, fun active hactive ↦ ?_⟩, ?_, fun other hlive ↦ ?_⟩
  · rw [hlength]
    exact not_le.mp hfull
  · rw [hturn] at hactive
    rw [hmark]
    exact (hreplica.turn active hactive).trans (le_of_lt (not_le.mp hused))
  · rw [hmark]
    exact le_of_lt (not_le.mp hused)
  · rw [hrows] at hlive
    split_ifs at hlive with hother
    · rw [hother]
      exact Or.inr (not_le.mp hused)
    · exact Or.inl hlive

theorem Bounded.leave {netId : NetId} {index : ℕ} (hindex : replica.indexOf netId = some index) :
    Bounded { replica with entities := replica.entities.eraseIdx index } ∧
      replica.Follows { replica with entities := replica.entities.eraseIdx index } := by
  obtain ⟨hwell, hrows⟩ := hreplica.wellFormed.eraseIdx hindex
  refine ⟨⟨hwell, ?_, hreplica.turn⟩, le_refl _, fun other hlive ↦ ?_⟩
  · exact (List.eraseIdx_sublist replica.entities index).length_le.trans hreplica.room
  · rw [hrows] at hlive
    split_ifs at hlive with hother
    · simp at hlive
    · exact Or.inl hlive

theorem Bounded.health {netId : NetId} {health maxHealth : ℕ} {dead : Bool}
    (hnext : replica.applyLegacy (.health netId health maxHealth dead) = .ok next) :
    next.Bounded ∧ replica.Follows next := by
  have haccepted := hnext
  simp only [applyLegacy] at haccepted
  cases hindex : replica.indexOf netId with
  | none => simp [hindex] at haccepted
  | some index =>
    have hlive : (replica.row? netId).isSome := by
      rw [← hreplica.wellFormed.indexOf_isSome, hindex]
      rfl
    obtain ⟨stored, hstored, hwell, hmark, hturn, hrows⟩ :=
      hreplica.wellFormed.applyLegacy_health hlive health maxHealth dead
    rw [hnext, Except.ok.injEq] at hstored
    subst hstored
    rw [hindex, Except.ok.injEq] at haccepted
    refine ⟨⟨hwell, ?_, fun active hactive ↦ ?_⟩, le_of_eq hmark.symm, fun other hother ↦ ?_⟩
    · rw [← haccepted]
      exact (List.length_modify ..).trans_le hreplica.room
    · rw [hturn] at hactive
      rw [hmark]
      exact hreplica.turn active hactive
    · rw [hrows] at hother
      split_ifs at hother with hsame
      · rw [hsame]
        exact Or.inl hlive
      · exact Or.inl hother

/-- An accepted turn operation stores a turn whose active id, if any, has a row. -/
theorem Bounded.turnOp {active : Option NetId} {round : ℕ}
    (hnext : replica.applyLegacy (.turn active round) = .ok next) :
    next = { replica with turn := some ⟨active, round⟩ } ∧
      ∀ netId, active = some netId → (replica.row? netId).isSome := by
  cases active with
  | none =>
    simp only [applyLegacy, Except.ok.injEq] at hnext
    exact ⟨hnext.symm, fun _ hnone ↦ by simp at hnone⟩
  | some netId =>
    simp only [applyLegacy] at hnext
    split at hnext
    · simp at hnext
    · rename_i checked hchecked
      obtain ⟨-, hlive⟩ := requireLive_eq_ok hchecked
      rw [Except.ok.injEq] at hnext
      refine ⟨hnext.symm, fun other hother ↦ ?_⟩
      rw [Option.some.injEq] at hother
      rwa [hother, hreplica.wellFormed.indexOf_isSome] at hlive

theorem Bounded.applyLegacy {op : DeltaOp} (hnext : replica.applyLegacy op = .ok next) :
    next.Bounded ∧ replica.Follows next := by
  cases op with
  | entityEnter netId => exact hreplica.entityEnter hnext
  | entityLeave netId | despawned netId =>
    simp only [ReplicaWorld.applyLegacy] at hnext
    split at hnext
    · simp at hnext
    · rename_i index hindex
      rw [Except.ok.injEq] at hnext
      exact hnext ▸ hreplica.leave hindex
  | spawned netId | died netId => exact hreplica.requireLive hnext
  | health netId health maxHealth dead => exact hreplica.health hnext
  | turn active round =>
    obtain ⟨rfl, hlive⟩ := hreplica.turnOp hnext
    refine hreplica.of_rows rfl rfl fun netId hactive ↦ ?_
    exact hreplica.wellFormed.le_highWater (hlive netId hactive)
  | receipt epoch cmdSeq tick outcome reason =>
    simp only [ReplicaWorld.applyLegacy] at hnext
    split_ifs at hnext with hepoch
    rw [Except.ok.injEq] at hnext
    exact hnext ▸ ⟨hreplica, Follows.refl replica⟩

theorem Bounded.applyOp {op : DeltaOpV2} (hnext : replica.applyOp op = .ok next) :
    next.Bounded ∧ replica.Follows next := by
  cases op with
  | legacy op => exact hreplica.applyLegacy hnext
  | actionResolved actor target ability verdict amount =>
    simp only [ReplicaWorld.applyOp] at hnext
    split at hnext
    · simp at hnext
    · exact hreplica.requireLive hnext
  | turnStarted actor round => exact hreplica.requireLive hnext
  | encounterEnded reason round =>
    simp only [ReplicaWorld.applyOp, Except.ok.injEq] at hnext
    exact hnext ▸ ⟨hreplica, Follows.refl replica⟩

theorem Bounded.workings (ops : List DeltaOpV2) :
    (∀ working ∈ replica.workings ops, working.Bounded) ∧
      (replica :: replica.workings ops).Pairwise Follows := by
  induction ops generalizing replica with
  | nil => simp [ReplicaWorld.workings]
  | cons op ops ih =>
    simp only [ReplicaWorld.workings]
    split
    · simp
    · rename_i first hfirst
      obtain ⟨hbounded, hfollows⟩ := hreplica.applyOp hfirst
      obtain ⟨hall, hpairs⟩ := ih hbounded
      refine ⟨forall_mem_cons.mpr ⟨hbounded, hall⟩, pairwise_cons.mpr ⟨?_, hpairs⟩⟩
      refine forall_mem_cons.mpr ⟨hfollows, fun working hworking ↦ ?_⟩
      exact hfollows.trans (List.rel_of_pairwise_cons hpairs hworking)

end

/-- Accepted operations end in the last working state. -/
theorem getLast_workings {ops : List DeltaOpV2} (hnext : replica.applyOps ops = .ok next) :
    (replica :: replica.workings ops).getLast (cons_ne_nil _ _) = next := by
  induction ops generalizing replica with
  | nil =>
    simp only [applyOps, Except.ok.injEq] at hnext
    exact hnext
  | cons op ops ih =>
    simp only [applyOps] at hnext
    split at hnext
    · simp at hnext
    · rename_i first hfirst
      have hlast := ih hnext
      simp only [ReplicaWorld.workings, hfirst]
      rw [List.getLast_cons (cons_ne_nil _ _)]
      exact hlast

/-! ### What a call does -/

/-- An accepted frame carries the expected sequence, runs its operations and takes the next one. -/
theorem applyDelta_eq_ok {frame : DeltaFrameV2} (hnext : replica.applyDelta frame = .ok next) :
    ∃ working, replica.applyOps frame.ops = .ok working ∧ next = { working with
        nextEventSeq := replica.nextEventSeq + 1, serverTick := frame.serverTick } := by
  simp only [applyDelta] at hnext
  split_ifs at hnext with _ _ hseq
  split at hnext
  · simp at hnext
  · rename_i working hworking
    rw [not_or, not_not] at hseq
    rw [Except.ok.injEq, hseq.1] at hnext
    exact ⟨working, hworking, hnext.symm⟩

theorem checkRows_eq_ok {rows : List SnapshotEntity} {previous : Option NetId}
    (hchecked : replica.checkRows previous rows = .ok ()) :
    rows.Pairwise (fun first second ↦ first.entity < second.entity) ∧
      (∀ row ∈ rows, ∀ before, previous = some before → before < row.entity) ∧
      ∀ row ∈ rows, (replica.indexOf row.entity).isSome ∨ replica.highWater < row.entity := by
  induction rows generalizing previous with
  | nil => simp
  | cons row rest ih =>
    simp only [checkRows] at hchecked
    split_ifs at hchecked with horder hused
    obtain ⟨hpairs, habove, hfresh⟩ := ih hchecked
    have hfirst (before : NetId) (hbefore : previous = some before) : before < row.entity := by
      rw [hbefore] at horder
      simpa using horder
    refine ⟨pairwise_cons.mpr ⟨fun later hlater ↦ habove later hlater _ rfl, hpairs⟩,
      forall_mem_cons.mpr ⟨hfirst, fun later hlater before hbefore ↦ ?_⟩,
      forall_mem_cons.mpr ⟨?_, hfresh⟩⟩
    · exact (hfirst before hbefore).trans (habove later hlater _ rfl)
    · rw [not_and_or, not_le, ← ne_eq, ← Option.isSome_iff_ne_none] at hused
      exact hused.symm

theorem applySnapshot_eq_ok {publication : Publication}
    (hnext : replica.applySnapshot publication = .ok next) :
    replica.nextEventSeq - 1 ≤ publication.cursor ∧
      publication.body.entities.length ≤ maxVisibleEntities ∧
      replica.checkRows none publication.body.entities = .ok () ∧
      (∀ active, publication.body.turn.bind TurnFact.active = some active →
        ∃ row ∈ publication.body.entities, row.entity = active) ∧ next = { replica with
        entities := publication.body.entities.map fun row ↦ ⟨row.entity, row.health⟩
        turn := publication.body.turn
        nextEventSeq := publication.cursor + 1
        serverTick := publication.baseTick
        highWater :=
          match publication.body.entities.getLast? with
          | some row => max replica.highWater row.entity
          | none => replica.highWater } := by
  simp only [applySnapshot] at hnext
  split_ifs at hnext with hcursor hlength
  split at hnext
  · simp at hnext
  · rename_i hchecked
    split at hnext
    · simp at hnext
    · rename_i hactive
      rw [Except.ok.injEq] at hnext
      rw [not_or, not_lt] at hcursor
      refine ⟨hcursor.1, not_lt.mp hlength, hchecked, fun active hsome ↦ ?_, hnext.symm⟩
      rw [hsome, Option.filter_eq_none_iff] at hactive
      have hfound := hactive active rfl
      simpa using hfound

theorem le_getLast_of_ascending {rows : List SnapshotEntity}
    (hascending : rows.Pairwise fun first second ↦ first.entity < second.entity)
    {row last : SnapshotEntity} (hrow : row ∈ rows) (hlast : rows.getLast? = some last) :
    row.entity ≤ last.entity := by
  obtain ⟨init, rfl⟩ := List.getLast?_eq_some_iff.mp hlast
  rcases mem_append.mp hrow with hinit | hend
  · exact le_of_lt ((pairwise_append.mp hascending).2.2 row hinit last (by simp))
  · rw [mem_singleton] at hend
    rw [hend]

section

variable (hreplica : replica.Bounded)
include hreplica

theorem Bounded.applySnapshot {publication : Publication}
    (hnext : replica.applySnapshot publication = .ok next) :
    next.Bounded ∧ replica.Follows next := by
  obtain ⟨-, hlength, hchecked, hactive, hstored⟩ := applySnapshot_eq_ok hnext
  obtain ⟨hpairs, -, hfresh⟩ := checkRows_eq_ok hchecked
  have hmark : replica.highWater ≤ next.highWater := by
    rw [hstored]
    dsimp only
    split
    · exact le_max_left _ _
    · exact le_refl _
  have hrows (row : SnapshotEntity) (hrow : row ∈ publication.body.entities) :
      (row.entity : ℕ) ≤ next.highWater := by
    rw [hstored]
    dsimp only
    split
    · rename_i last hlast
      exact (PNat.coe_le_coe _ _ |>.mpr (le_getLast_of_ascending hpairs hrow hlast)).trans
        (le_max_right _ _)
    · rename_i hempty
      rw [List.getLast?_eq_none_iff.mp hempty] at hrow
      simp at hrow
  have hentities : next.entities =
      publication.body.entities.map fun row ↦ ⟨row.entity, row.health⟩ := by rw [hstored]
  have hwell : next.WellFormed := by
    refine ⟨?_, fun row hrow ↦ ?_⟩
    · rw [hentities]
      exact List.pairwise_map.mpr hpairs
    · rw [hentities] at hrow
      obtain ⟨source, hsource, rfl⟩ := mem_map.mp hrow
      exact hrows source hsource
  refine ⟨⟨hwell, ?_, fun active hsome ↦ ?_⟩, hmark, fun netId hlive ↦ ?_⟩
  · rw [hentities, List.length_map]
    exact hlength.trans (by decide)
  · have hturn : next.turn = publication.body.turn := by rw [hstored]
    rw [hturn] at hsome
    obtain ⟨row, hrow, rfl⟩ := hactive active hsome
    exact hrows row hrow
  · obtain ⟨health, hhealth⟩ := Option.isSome_iff_exists.mp hlive
    obtain ⟨index, hindex⟩ := hwell.row?_eq_some_iff.mp hhealth
    have hmem := List.mem_of_getElem? hindex
    rw [hentities] at hmem
    obtain ⟨row, hrow, hsame⟩ := mem_map.mp hmem
    rw [ReplicaEntity.mk.injEq] at hsame
    have hstep := hfresh row hrow
    rwa [hsame.1, hreplica.wellFormed.indexOf_isSome] at hstep

theorem Bounded.applyDelta {frame : DeltaFrameV2} (hnext : replica.applyDelta frame = .ok next) :
    next.Bounded ∧ ∀ working ∈ replica :: replica.workings frame.ops, working.Follows next := by
  obtain ⟨working, hworking, hstored⟩ := applyDelta_eq_ok hnext
  obtain ⟨hall, hpairs⟩ := hreplica.workings frame.ops
  have hlast := getLast_workings hworking
  have hmem : working ∈ replica :: replica.workings frame.ops :=
    hlast ▸ List.getLast_mem (cons_ne_nil _ _)
  have hbounded : working.Bounded := by
    rcases List.mem_cons.mp hmem with rfl | hlater
    · exact hreplica
    · exact hall working hlater
  have hcommit : next.Bounded ∧ working.Follows next := by
    rw [hstored]
    exact hbounded.of_rows rfl rfl hbounded.turn
  refine ⟨hcommit.1, fun earlier hearlier ↦ ?_⟩
  have hsplit := List.dropLast_append_getLast (cons_ne_nil replica (replica.workings frame.ops))
  rw [hlast] at hsplit
  rw [← hsplit] at hearlier hpairs
  rcases mem_append.mp hearlier with hinit | hend
  · exact ((pairwise_append.mp hpairs).2.2 earlier hinit working (by simp)).trans hcommit.2
  · rw [mem_singleton] at hend
    rw [hend]
    exact hcommit.2

/-- Every state a call passes through is bounded, each follows the ones before it, and the last is
the one the call leaves. -/
theorem Bounded.passes (request : ReplicaCall) :
    (∀ moment ∈ replica.passes request, moment.Bounded) ∧
      (replica :: replica.passes request).Pairwise Follows ∧
      ∀ moment ∈ replica :: replica.passes request, moment.Follows (replica.after request) := by
  cases hanswer : replica.call request with
  | error refusal =>
    cases request <;> simp [ReplicaWorld.passes, after, hanswer, hreplica, Follows.refl]
  | ok next =>
    cases request with
    | applySnapshot publication =>
      obtain ⟨hbounded, hfollows⟩ := hreplica.applySnapshot hanswer
      simp [ReplicaWorld.passes, after, hanswer, hbounded, hfollows, Follows.refl]
    | applyDelta frame =>
      obtain ⟨hall, hpairs⟩ := hreplica.workings frame.ops
      obtain ⟨hbounded, hfollows⟩ := hreplica.applyDelta hanswer
      simp only [ReplicaWorld.passes, after, hanswer]
      refine ⟨?_, ?_, ?_⟩
      · intro moment hmoment
        rcases mem_append.mp hmoment with hworking | hend
        · exact hall moment hworking
        · rw [mem_singleton] at hend
          exact hend ▸ hbounded
      · rw [← cons_append]
        refine pairwise_append.mpr ⟨hpairs, List.pairwise_singleton _ _, ?_⟩
        intro earlier hearlier later hlater
        rw [mem_singleton] at hlater
        exact hlater ▸ hfollows earlier hearlier
      · rw [← cons_append]
        intro earlier hearlier
        rcases mem_append.mp hearlier with hworking | hend
        · exact hfollows earlier hworking
        · rw [mem_singleton] at hend
          exact hend ▸ Follows.refl next

theorem Bounded.after (request : ReplicaCall) : (replica.after request).Bounded := by
  unfold ReplicaWorld.after
  split
  · rename_i next hanswer
    cases request with
    | applyDelta frame => exact (hreplica.applyDelta hanswer).1
    | applySnapshot publication => exact (hreplica.applySnapshot hanswer).1
  · exact hreplica

/-! ### Whole runs -/

theorem Bounded.moments (requests : List ReplicaCall) :
    (∀ moment ∈ replica.moments requests, moment.Bounded) ∧
      (replica :: replica.moments requests).Pairwise Follows := by
  induction requests generalizing replica with
  | nil => simp [ReplicaWorld.moments]
  | cons request requests ih =>
    obtain ⟨hpassed, hpairs, hlast⟩ := hreplica.passes request
    obtain ⟨hlater, hrest⟩ := ih (hreplica.after request)
    rw [pairwise_cons] at hrest
    simp only [ReplicaWorld.moments]
    refine ⟨fun moment hmoment ↦ ?_, ?_⟩
    · rcases mem_append.mp hmoment with hnow | hthen
      · exact hpassed moment hnow
      · exact hlater moment hthen
    · rw [← cons_append]
      refine pairwise_append.mpr ⟨hpairs, hrest.2, fun earlier hearlier later hlater ↦ ?_⟩
      exact (hlast earlier hearlier).trans (hrest.1 later hlater)

theorem Bounded.runCalls (requests : List ReplicaCall) : (replica.runCalls requests).Bounded := by
  induction requests generalizing replica with
  | nil => exact hreplica
  | cons request requests ih => exact ih (hreplica.after request)

theorem Bounded.turn_live {before later : List DeltaOpV2} {active : NetId} {round : ℕ}
    (hnext : replica.applyOps (before ++ .legacy (.turn (some active) round) :: later) = .ok next) :
    ∃ working, replica.applyOps before = .ok working ∧ (working.row? active).isSome := by
  induction before generalizing replica with
  | nil =>
    simp only [List.nil_append, applyOps] at hnext
    split at hnext
    · simp at hnext
    · rename_i first hfirst
      have haccepted : replica.applyLegacy (.turn (some active) round) = .ok first := hfirst
      exact ⟨replica, rfl, (hreplica.turnOp haccepted).2 active rfl⟩
  | cons op before ih =>
    simp only [cons_append, applyOps] at hnext ⊢
    split at hnext
    · simp at hnext
    · rename_i first hfirst
      exact ih (hreplica.applyOp hfirst).1 hnext

end

/-- What a session may rely on after any calls on a fresh replica. -/
structure Upheld (epoch : SessionEpoch) (requests : List ReplicaCall) : Prop where
  /-- Rows ascend strictly by id. -/
  ascending : ∀ moment ∈ new epoch :: (new epoch).moments requests,
    moment.entities.Pairwise fun first second ↦ first.netId < second.netId
  /-- The binary search finds an id exactly where its row is. -/
  searched : ∀ moment ∈ new epoch :: (new epoch).moments requests, ∀ (netId : NetId) (index : ℕ),
    moment.indexOf netId = some index ↔
      ∃ health, moment.entities[index]? = some ⟨netId, health⟩
  /-- No live id lies above the mark. -/
  highWater : ∀ moment ∈ new epoch :: (new epoch).moments requests, ∀ row ∈ moment.entities,
    (row.netId : ℕ) ≤ moment.highWater
  /-- The rows stay within twice the visible-entity limit. -/
  limit : ∀ moment ∈ new epoch :: (new epoch).moments requests,
    moment.entities.length ≤ maxReplicaEntities
  /-- An id that was live and then was not is live at no later moment, inside a frame or after. -/
  retired : ∀ (first second third : ℕ) (one two three : ReplicaWorld), first < second →
    second < third → (new epoch :: (new epoch).moments requests)[first]? = some one →
    (new epoch :: (new epoch).moments requests)[second]? = some two →
    (new epoch :: (new epoch).moments requests)[third]? = some three →
    ∀ netId, (one.row? netId).isSome → two.row? netId = none → three.row? netId = none
  /-- An accepted frame takes the next sequence, and each of its turns finds its active row. -/
  delta : ∀ frame next, ((new epoch).runCalls requests).applyDelta frame = .ok next →
    next.nextEventSeq = ((new epoch).runCalls requests).nextEventSeq + 1 ∧
    ∀ before active round later,
      frame.ops = before ++ .legacy (.turn (some active) round) :: later →
      ∃ working, ((new epoch).runCalls requests).applyOps before = .ok working ∧
        (working.row? active).isSome
  /-- An accepted snapshot never moves the sequence back, and its active id has a row. -/
  snapshot : ∀ publication next,
    ((new epoch).runCalls requests).applySnapshot publication = .ok next →
    next.entities.length ≤ maxVisibleEntities ∧
    ((new epoch).runCalls requests).nextEventSeq ≤ next.nextEventSeq ∧
    ∀ active, next.turn.bind TurnFact.active = some active → (next.row? active).isSome
  /-- A stored active id is live or retired, never one the replica has not seen. -/
  turn : ∀ moment ∈ new epoch :: (new epoch).moments requests, ∀ active,
    moment.turn.bind TurnFact.active = some active → (active : ℕ) ≤ moment.highWater
  /-- A refused call leaves the replica as it was. -/
  refused : ∀ request refusal, ((new epoch).runCalls requests).call request = .error refusal →
    (new epoch).runCalls (requests ++ [request]) = (new epoch).runCalls requests

theorem Bounded.snapshot_active (hreplica : replica.Bounded) {publication : Publication}
    (hnext : replica.applySnapshot publication = .ok next) {active : NetId}
    (hactive : next.turn.bind TurnFact.active = some active) : (next.row? active).isSome := by
  obtain ⟨hbounded, -⟩ := hreplica.applySnapshot hnext
  obtain ⟨-, -, -, hfound, hstored⟩ := applySnapshot_eq_ok hnext
  have hturn : next.turn = publication.body.turn := by rw [hstored]
  rw [hturn] at hactive
  obtain ⟨row, hrow, rfl⟩ := hfound active hactive
  have hmem : (⟨row.entity, row.health⟩ : ReplicaEntity) ∈ next.entities := by
    rw [hstored]
    exact mem_map.mpr ⟨row, hrow, rfl⟩
  obtain ⟨index, hindex⟩ := List.mem_iff_getElem?.mp hmem
  rw [hbounded.wellFormed.row?_eq_some_iff.mpr ⟨index, hindex⟩]
  rfl

/-- The invariant of a replica over every sequence of calls, accepted and refused. -/
theorem upheld_of_calls (epoch : SessionEpoch) (requests : List ReplicaCall) :
    Upheld epoch requests := by
  obtain ⟨hlater, hpairs⟩ := (bounded_new epoch).moments requests
  have hall := forall_mem_cons.mpr ⟨bounded_new epoch, hlater⟩
  have hnow := (bounded_new epoch).runCalls requests
  refine ⟨fun moment hmoment ↦ (hall moment hmoment).wellFormed.ascending,
    fun moment hmoment _ _ ↦ (hall moment hmoment).wellFormed.indexOf_eq_some_iff,
    fun moment hmoment ↦ (hall moment hmoment).wellFormed.highWater,
    fun moment hmoment ↦ (hall moment hmoment).room, ?_, ?_, ?_,
    fun moment hmoment ↦ (hall moment hmoment).turn, ?_⟩
  · intro first second third one two three hfirst hsecond hone htwo hthree netId hlive hleft
    obtain ⟨honeAt, rfl⟩ := List.getElem?_eq_some_iff.mp hone
    obtain ⟨htwoAt, rfl⟩ := List.getElem?_eq_some_iff.mp htwo
    obtain ⟨hthreeAt, rfl⟩ := List.getElem?_eq_some_iff.mp hthree
    have horder := List.pairwise_iff_getElem.mp hpairs
    exact Follows.retired (hall _ (List.getElem_mem honeAt)).wellFormed
      (horder _ _ honeAt htwoAt hfirst) (horder _ _ htwoAt hthreeAt hsecond) hlive hleft
  · intro frame next hnext
    obtain ⟨working, hworking, hstored⟩ := applyDelta_eq_ok hnext
    refine ⟨by rw [hstored], fun before active round later hops ↦ ?_⟩
    rw [hops] at hworking
    exact hnow.turn_live hworking
  · intro publication next hnext
    obtain ⟨hcursor, hlength, -, -, hstored⟩ := applySnapshot_eq_ok hnext
    refine ⟨?_, ?_, fun active hactive ↦ hnow.snapshot_active hnext hactive⟩
    · rw [hstored, List.length_map]
      exact hlength
    · rw [hstored]
      dsimp only
      omega
  · intro request refusal hrefused
    rw [ReplicaWorld.runCalls, List.foldl_append, foldl_cons, List.foldl_nil]
    show after ((new epoch).runCalls requests) request = _
    rw [ReplicaWorld.after, hrefused]

/-! ### A replica with more rows than one view -/

/-- The frame that enters the 256 ids after `count`. -/
def enterFrame (count eventSeq : ℕ) : DeltaFrameV2 :=
  ⟨laneCombat, 0, eventSeq,
    (List.range' count maxDeltaOps).map fun id ↦ .legacy (.entityEnter id.succPNat)⟩

/-- Entering the ids after the mark is accepted while there is room. -/
theorem Bounded.applyOps_enter (hreplica : replica.Bounded) (count : ℕ)
    (hroom : replica.entities.length + count ≤ maxReplicaEntities) :
    ∃ next, replica.applyOps ((List.range' replica.highWater count).map
        fun id ↦ .legacy (.entityEnter id.succPNat)) = .ok next ∧ next.Bounded ∧
      next.entities.length = replica.entities.length + count ∧
      next.highWater = replica.highWater + count := by
  induction count generalizing replica with
  | zero => exact ⟨replica, rfl, hreplica, rfl, rfl⟩
  | succ count ih =>
    have hfresh : replica.highWater < (replica.highWater.succPNat : NetId) := by simp
    obtain ⟨first, hfirst, -, hlength, hmark, -, -⟩ :=
      hreplica.wellFormed.applyLegacy_entityEnter hfresh (by omega)
    have hbounded := (hreplica.applyLegacy hfirst).1
    obtain ⟨next, hnext, hnextBounded, hnextLength, hnextMark⟩ := ih hbounded (by omega)
    rw [Nat.succPNat_coe] at hmark
    refine ⟨next, ?_, hnextBounded, by omega, by omega⟩
    rw [List.range'_succ, List.map_cons]
    simp only [applyOps, ReplicaWorld.applyOp, hfirst]
    rwa [← Nat.succ_eq_add_one, ← hmark]

/-- A replica that holds the ids up to a count and expects a sequence. -/
structure Filled (replica : ReplicaWorld) (count eventSeq : ℕ) : Prop where
  bounded : replica.Bounded
  rows : replica.entities.length = count
  mark : replica.highWater = count
  expected : replica.nextEventSeq = eventSeq

/-- The frame of the ids after the mark is accepted while there is room. -/
theorem Filled.after_enterFrame {count eventSeq : ℕ} (hreplica : replica.Filled count eventSeq)
    (hroom : count + maxDeltaOps ≤ maxReplicaEntities) (hseq : eventSeq ≤ seqLast) :
    (replica.after (.applyDelta (enterFrame count eventSeq))).Filled (count + maxDeltaOps)
      (eventSeq + 1) := by
  obtain ⟨hbounded, hrows, hmark, hexpected⟩ := hreplica
  obtain ⟨working, hworking, -, hlength, hnextMark⟩ :=
    hbounded.applyOps_enter maxDeltaOps (by omega)
  rw [hmark] at hworking
  have hops : ¬ maxDeltaOps < (enterFrame count eventSeq).ops.length := by simp [enterFrame]
  have hnumber : ¬ ((enterFrame count eventSeq).eventSeq ≠ replica.nextEventSeq ∨
      seqLast < (enterFrame count eventSeq).eventSeq) := by
    rw [hexpected, not_or, not_not]
    exact ⟨rfl, not_lt.mpr hseq⟩
  have hlane : ¬ (enterFrame count eventSeq).lane ≠ laneCombat := by simp [enterFrame]
  have haccepted : replica.call (.applyDelta (enterFrame count eventSeq)) =
      .ok { working with nextEventSeq := eventSeq + 1, serverTick := 0 } := by
    simp only [call, ReplicaWorld.applyDelta, if_neg hlane, if_neg hops, if_neg hnumber]
    simp only [enterFrame, hworking]
  refine ⟨hbounded.after _, ?_, ?_, ?_⟩
  · rw [ReplicaWorld.after, haccepted]
    exact hlength.trans (by rw [hrows])
  · rw [ReplicaWorld.after, haccepted]
    exact hnextMark.trans (by rw [hmark])
  · rw [ReplicaWorld.after, haccepted]

/-- Five accepted frames of entries leave more rows than one view may show. -/
theorem rows_exceed_visible_limit : maxVisibleEntities < ((new (Vector.replicate 16 0)).runCalls
      [.applyDelta (enterFrame 0 1), .applyDelta (enterFrame 256 2),
        .applyDelta (enterFrame 512 3), .applyDelta (enterFrame 768 4),
        .applyDelta (enterFrame 1024 5)]).entities.length := by
  have hnew : (new (Vector.replicate 16 0)).Filled 0 1 := ⟨bounded_new _, rfl, rfl, rfl⟩
  have hops : maxDeltaOps = 256 := rfl
  have hroom : maxReplicaEntities = 2048 := rfl
  have hlast : 5 ≤ seqLast := by simp [seqLast]
  have hfirst := hnew.after_enterFrame (by omega) (by omega)
  have hsecond := hfirst.after_enterFrame (by omega) (by omega)
  have hthird := hsecond.after_enterFrame (by omega) (by omega)
  have hfourth := hthird.after_enterFrame (by omega) (by omega)
  have hfifth := hfourth.after_enterFrame (by omega) (by omega)
  have hrows := hfifth.rows
  simp only [hops, Nat.reduceAdd] at hrows
  rw [ReplicaWorld.runCalls, foldl_cons, foldl_cons, foldl_cons, foldl_cons, foldl_cons,
    List.foldl_nil, hrows]
  simp [maxVisibleEntities]

end ReplicaWorld

end Crpg.Net
