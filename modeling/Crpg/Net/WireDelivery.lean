import Crpg.Net.CodecV2
import Crpg.Net.ChunkAssembly
import Crpg.Net.TransferFormat
import Crpg.Net.Projection
import Crpg.Net.ReplicaRun

/-!
# Projections over the wire

What a host projects reaches the replica as bytes: a delta as encoded frames, a snapshot as the
frames of a transfer, whose chunks arrive in any order and any number of times. This module composes
the codecs, the assembly and the replica: what is decoded is what was projected, and the replica
then shows it.
-/

set_option autoImplicit false

namespace Crpg.Net

open Crpg.Lib

variable {epoch own : SessionEpoch} {view after : InterestView} {replica : ReplicaWorld}
  {context : ViewerContext}

/-! ### Deltas -/

/-- A projected delta carries no receipts, so the encoder takes its operations. -/
theorem encodable_of_mem_plannedOps {minted : List (EntityKey × NetId)}
    {rows : List (NetId × EntityFact)} {op : DeltaOp}
    (hop : op ∈ plannedOps view context minted rows) : op.Encodable := by
  simp only [plannedOps, List.mem_append, List.mem_map, List.mem_filterMap] at hop
  rcases hop with ((⟨_, -, rfl⟩ | ⟨row, -, hhealth⟩) | hturn) | ⟨pair, -, rfl⟩
  · trivial
  · unfold InterestView.healthOp at hhealth
    dsimp only at hhealth
    split at hhealth
    · cases hhealth
    · split_ifs at hhealth
      cases hhealth
      trivial
  · unfold InterestView.turnOps at hturn
    split at hturn
    · cases hturn
    · split_ifs at hturn
      · rw [List.mem_singleton.mp hturn]
        trivial
      · cases hturn
  · unfold InterestView.leaveOp
    split_ifs <;> trivial

/-- A projected delta, cut into frames anywhere, encodes; the bytes decode to the frames, and the
replica accepts them and shows the context. Assumes: integers within the widths of the wire. -/
theorem Delivered.delta_over_wire (hdelivered : Delivered epoch own view replica)
    {projection : StateProjection}
    (hproject : view.projectDelta context = some (.ok (projection, after)))
    {frames : List DeltaFrameV2}
    (hcut : ReplicaWorld.Cut projection.ops replica.nextEventSeq frames)
    (hops : ∀ op ∈ projection.ops, op.Fits)
    (htick : ∀ frame ∈ frames, frame.serverTick < 2 ^ 64) : ∃ sent next,
    List.Forall₂ (fun frame bytes ↦ encodeDeltaV2 frame = .ok bytes ∧ decodeDeltaV2 bytes = .ok frame)
      frames sent ∧ replica.applyFrames frames = .ok next ∧ Delivered epoch own after next ∧
      Shows context after next := by
  obtain ⟨minted, nextId, rows, -, -, hplanned⟩ :=
    InterestView.projectDelta_ok hdelivered.agrees.coherent hproject
  obtain ⟨next, hnext, -, hshows⟩ := hdelivered.agrees.delta hproject hcut
  have hlegacy : ∀ frame ∈ frames, ∀ op ∈ frame.ops, ∃ first ∈ projection.ops,
      DeltaOpV2.legacy first = op := by
    intro frame hframe op hop
    have hmem : op ∈ frames.flatMap DeltaFrameV2.ops := List.mem_flatMap.mpr ⟨frame, hframe, hop⟩
    rw [hcut.ops] at hmem
    exact List.mem_map.mp hmem
  have hseq : ∀ frame ∈ frames, frame.eventSeq < 2 ^ 64 := by
    intro frame hframe
    have hmem : frame.eventSeq ∈ frames.map DeltaFrameV2.eventSeq :=
      List.mem_map.mpr ⟨frame, hframe, rfl⟩
    rw [hcut.sequence, List.mem_range'_1] at hmem
    have hlast := hcut.last
    unfold seqLast at hlast
    omega
  have hsend : ∀ frame ∈ frames, ∃ bytes,
      encodeDeltaV2 frame = .ok bytes ∧ decodeDeltaV2 bytes = .ok frame := by
    intro frame hframe
    have hlane := hcut.lane frame hframe
    have hfits : frame.Fits := by
      refine ⟨hlane.trans_lt (by decide), htick frame hframe, hseq frame hframe, fun op hop ↦ ?_⟩
      obtain ⟨first, hfirst, rfl⟩ := hlegacy frame hframe op hop
      exact hops first hfirst
    have hencodable : frame.Encodable := by
      refine ⟨hlane, hcut.limit frame hframe, fun op hop ↦ ?_⟩
      obtain ⟨first, hfirst, rfl⟩ := hlegacy frame hframe op hop
      exact encodable_of_mem_plannedOps (hplanned ▸ hfirst)
    obtain ⟨bytes, hbytes⟩ := (delta_formatV2.accepts_iff frame).mpr hencodable
    exact ⟨bytes, hbytes, delta_formatV2.round_trip frame bytes hfits hbytes⟩
  choose! send hsend using hsend
  exact ⟨frames.map send, next, List.forall₂_map_right_iff.mpr (List.forall₂_same.mpr hsend), hnext,
    hdelivered.delta hproject hcut hnext, hshows⟩

/-- The first delta of the sample context, in two frames. -/
theorem Delivered.delta_over_wire_first : ∃ sent after next,
    List.Forall₂ (fun frame bytes ↦ decodeDeltaV2 bytes = .ok frame) sampleFrames sent ∧
      (ReplicaWorld.new (Vector.replicate 16 7)).applyFrames sampleFrames = .ok next ∧
      Shows (sampleContext (Vector.replicate 16 7)) after next := by
  obtain ⟨projection, after, hproject, hops⟩ := planned_sample.projectDelta
  have hlist : projection.ops = [.entityEnter 1, .entityEnter 2, .entityEnter 3,
      .health 1 9 10 false, .health 3 0 12 true, .turn (some 1) 2] := by
    rw [hops]
    decide +kernel
  obtain ⟨sent, next, hsent, hnext, -, hshows⟩ := Delivered.delta_over_wire
    (.start : Delivered (Vector.replicate 16 7) (Vector.replicate 16 7) _ _) hproject
    (hops ▸ cut_sample) (by simp [hlist, DeltaOp.Fits]) (by simp [sampleFrames])
  exact ⟨sent, after, next, hsent.imp fun _ _ h ↦ h.2, hnext, hshows⟩

/-! ### Snapshots -/

theorem encodable_of_applySnapshot {publication : Publication} {next : ReplicaWorld}
    (hnext : replica.applySnapshot publication = .ok next) : publication.body.Encodable := by
  obtain ⟨-, hcount, hchecked, hactive, -⟩ := ReplicaWorld.applySnapshot_eq_ok hnext
  refine ⟨hcount, List.pairwise_map.mpr (ReplicaWorld.checkRows_eq_ok hchecked).1,
    fun fact hfact id hid ↦ hactive id ?_⟩
  rw [Option.mem_def.mp hfact]
  exact hid

theorem stored_foldl_keep {header : BeginTransfer} {chunk : TransferChunk}
    (hmatches : header.Matches chunk) {chunks : List TransferChunk} (hchunk : chunk ∈ chunks)
    (kept : List TransferChunk) :
    BeginTransfer.Stored (chunks.foldl header.keep kept) chunk.index := by
  have hgrows (first : TransferChunk) (kept : List TransferChunk) :
      kept ⊆ header.keep kept first := by
    unfold BeginTransfer.keep
    split_ifs
    · exact List.subset_append_left _ _
    · exact List.Subset.refl _
  have hlater (kept rest : List TransferChunk) : kept ⊆ rest.foldl header.keep kept := by
    induction rest generalizing kept with
    | nil => exact List.Subset.refl _
    | cons first rest ih => exact List.Subset.trans (hgrows first kept) (ih _)
  induction chunks generalizing kept with
  | nil => cases hchunk
  | cons first rest ih =>
    rw [List.foldl_cons]
    rcases List.mem_cons.mp hchunk with rfl | hrest
    · have hstored : BeginTransfer.Stored (header.keep kept chunk) chunk.index := by
        unfold BeginTransfer.keep
        split_ifs with hnew
        · exact ⟨chunk, List.mem_append_right _ List.mem_cons_self, rfl⟩
        · exact not_not.mp fun hnot ↦ hnew ⟨hmatches, hnot⟩
      obtain ⟨stored, hmem, hindex⟩ := hstored
      exact ⟨stored, hlater _ _ hmem, hindex⟩
    · exact ih hrest _

theorem answers_ok (piece : ℕ → List UInt8) {header : BeginTransfer} {chunks : List TransferChunk}
    (hmatches : ∀ chunk ∈ chunks, header.Matches chunk)
    (hpiece : ∀ chunk ∈ chunks, chunk.bytes = piece chunk.index) {kept : List TransferChunk}
    (hkept : ∀ first ∈ kept, first.bytes = piece first.index) :
    ∀ answer ∈ header.answers kept chunks, ∃ outcome, answer = .ok outcome := by
  induction chunks generalizing kept with
  | nil => exact fun _ hanswer ↦ nomatch hanswer
  | cons chunk rest ih =>
    have hchunk := hpiece chunk List.mem_cons_self
    intro answer hanswer
    rcases List.mem_cons.mp hanswer with rfl | hrest
    · rw [BeginTransfer.answer_matches (hmatches chunk List.mem_cons_self)]
      split
      next first hfirst =>
        have hindex : first.index = chunk.index := by simpa using List.find?_some hfirst
        rw [if_pos (by rw [hkept first (List.mem_of_find?_eq_some hfirst), hchunk, hindex])]
        exact ⟨_, rfl⟩
      next =>
        split_ifs
        · exact ⟨_, rfl⟩
        · exact ⟨_, rfl⟩
    · refine ih (fun later hlater ↦ hmatches later (List.mem_cons_of_mem _ hlater))
        (fun later hlater ↦ hpiece later (List.mem_cons_of_mem _ hlater)) (fun first hfirst ↦ ?_)
        answer hrest
      unfold BeginTransfer.keep at hfirst
      split_ifs at hfirst
      · rcases List.mem_append.mp hfirst with hold | hnew
        · exact hkept first hold
        · exact List.mem_singleton.mp hnew ▸ hchunk
      · exact hkept first hfirst

/-- A projected snapshot is planned as a header and the frames of its chunks. Whichever of these
frames arrive, in any order and any number of times, they decode and assemble without an error or a
panic, to a body exactly when all of them arrived; it is the projected one, which the replica
accepts and shows. Assumes: integers within the widths of the wire, a cursor not behind, and as many
segments per chunk as the planner allows. -/
theorem Delivered.snapshot_over_wire (hdelivered : Delivered epoch own view replica)
    {projection : SnapshotProjection}
    (hproject : view.projectSnapshot context = some (.ok (projection, after)))
    {transfer : TransferId} {baseTick cursor segmentsPerChunk : ℕ} (hfits : projection.body.Fits)
    (htransfer : (transfer : ℕ) < 2 ^ 64) (htick : baseTick < 2 ^ 64)
    (hseen : replica.nextEventSeq - 1 ≤ cursor) (hlast : cursor ≤ seqLast)
    (hlow : 1 ≤ segmentsPerChunk) (hhigh : segmentsPerChunk ≤ maxSegmentsPerChunk) :
    ∃ header first rest start next,
      planTransfer epoch transfer baseTick cursor segmentsPerChunk projection.body =
        .ok (first :: rest) ∧ decodeDown first = .ok (.begin header) ∧
      TransferAssembly.new header = .ok start ∧
      replica.applySnapshot ⟨transfer, baseTick, cursor, projection.body⟩ = .ok next ∧
      Delivered epoch own after next ∧ Shows context after next ∧
      ∀ arrived, arrived ⊆ rest → ∃ chunks final,
        List.Forall₂ (fun frame chunk ↦ decodeDown frame = .ok (.chunk chunk)) arrived chunks ∧
        run Assembling.step ⟨start, []⟩ chunks = some final ∧
        (∀ answer ∈ final.answers, ∃ outcome, answer = .ok outcome) ∧
        (final.assembly.intoBytes.isSome ↔ rest ⊆ arrived) ∧
        ∀ bytes, final.assembly.intoBytes = some bytes →
          decodeBody bytes = .ok projection.body := by
  let publication : Publication := ⟨transfer, baseTick, cursor, projection.body⟩
  have hpublished : publication.body = projection.body := rfl
  obtain ⟨next, hnext, -, hshows⟩ := hdelivered.agrees.snapshot hproject hpublished hseen hlast
  obtain ⟨body, hbody⟩ : ∃ body, encodeBody projection.body = .ok body :=
    ⟨_, encodeBody_eq_ok_iff.mpr ⟨encodable_of_applySnapshot hnext, rfl⟩⟩
  have hvalid := @valid_planHeader epoch transfer baseTick _ _ _ _ hbody hlast hlow hhigh
  have hencodable (place : ℕ) := @encodable_chunk epoch transfer baseTick cursor segmentsPerChunk
    _ _ place hvalid hlow
  have hplan := planTransfer_eq hbody hlast hlow hhigh fun place hplace ↦
    hencodable place (by simpa using hplace)
  have hlen (place : ℕ) := @chunkLen_planHeader epoch transfer baseTick cursor segmentsPerChunk
    _ _ place hvalid hlow
  generalize hheader : planHeader epoch transfer baseTick cursor segmentsPerChunk projection.body
    body = header at hvalid hencodable hplan hlen
  generalize hpiece : (fun place ↦ (⟨epoch, transfer, place,
    chunkPayload (segmentsPerChunk * maxSegmentBytes) body place⟩ : TransferChunk)) = piece
  have hdecode (place : ℕ) (hplace : place < header.chunkCount) :
      decodeDown (TransferDown.chunk (piece place)).put = .ok (.chunk (piece place)) := by
    subst hpiece
    exact down_format.round_trip _ _ htransfer (encodeDown_of_encodable (hencodable place hplace))
  have hmatches (place : ℕ) (hplace : place < header.chunkCount) :
      header.Matches (piece place) := by
    subst hpiece hheader
    exact ⟨rfl, rfl, hlen place hplace⟩
  have hvalidate := BeginTransfer.validate_eq_ok_iff.mpr hvalid
  obtain ⟨start, hnew, hstart⟩ := Holds.new hvalidate
  have hbegin : decodeDown (TransferDown.begin header).put = .ok (.begin header) := by
    subst hheader
    exact down_format.round_trip _ _ ⟨htransfer, htick⟩ (encodeDown_of_encodable hvalid)
  have hframes (frame : List UInt8) : frame ∈ ((List.range' 0 header.chunkCount).map fun place ↦
      (TransferDown.chunk (piece place)).put) ↔
        ∃ place < header.chunkCount, (TransferDown.chunk (piece place)).put = frame := by simp
  refine ⟨header, _, (List.range' 0 header.chunkCount).map fun place ↦
    (TransferDown.chunk (piece place)).put, start, next, hpiece ▸ hplan, hbegin, hnew, hnext,
    hdelivered.snapshot hproject hpublished hnext, hshows, fun arrived harrived ↦ ?_⟩
  have hplaced := fun frame hframe ↦ (hframes frame).mp (harrived hframe)
  choose! place hplace hput using hplaced
  obtain ⟨final, hrun, hfinal⟩ := hstart.run hvalidate (arrived.map fun frame ↦ piece (place frame)) []
  have hindex (place : ℕ) : (piece place).index = place := by rw [← hpiece]
  have hcovered : header.Covered ((arrived.map fun frame ↦ piece (place frame)).foldl header.keep
      []) ↔ ((List.range' 0 header.chunkCount).map fun place ↦
        (TransferDown.chunk (piece place)).put) ⊆ arrived := by
    constructor
    · intro hall frame hframe
      obtain ⟨index, hlt, rfl⟩ := (hframes frame).mp hframe
      obtain ⟨first, hfirst, rfl⟩ := hall index hlt
      have hmem := (BeginTransfer.mem_of_mem_foldl_keep _ hfirst).resolve_left List.not_mem_nil
      obtain ⟨sent, hsent, rfl⟩ := List.mem_map.mp hmem
      rw [hindex, hput sent hsent]
      exact hsent
    · intro hall index hlt
      have hsent := hall ((hframes _).mpr ⟨index, hlt, rfl⟩)
      have hsame := hdecode _ (hplace _ hsent)
      rw [hput _ hsent, hdecode index hlt, Except.ok.injEq, TransferDown.chunk.injEq] at hsame
      have hchunk : piece index ∈ arrived.map fun frame ↦ piece (place frame) :=
        List.mem_map.mpr ⟨_, hsent, hsame.symm⟩
      have hstored := stored_foldl_keep (hmatches index hlt) hchunk []
      rwa [hindex] at hstored
  have hcount := BeginTransfer.covered_iff_length hfinal.nodup hfinal.below
  refine ⟨_, ⟨final, _⟩, List.forall₂_map_right_iff.mpr (List.forall₂_same.mpr fun frame hframe ↦ ?_),
    hrun, answers_ok (fun index ↦ (piece index).bytes) (fun chunk hchunk ↦ ?_)
      (fun chunk hchunk ↦ ?_) (fun _ hfirst ↦ nomatch hfirst), ?_, fun bytes hbytes ↦ ?_⟩
  · have hframe' := hdecode _ (hplace frame hframe)
    rwa [hput frame hframe] at hframe'
  · obtain ⟨sent, hsent, rfl⟩ := List.mem_map.mp hchunk
    exact hmatches _ (hplace sent hsent)
  · obtain ⟨sent, -, rfl⟩ := List.mem_map.mp hchunk
    rw [hindex]
  · rw [← hcovered, hcount, TransferAssembly.intoBytes, hfinal.received_eq, hfinal.header_eq]
    split_ifs with hleft
    · exact iff_of_false (by simp) hleft
    · exact iff_of_true rfl (not_not.mp hleft)
  · rw [TransferAssembly.intoBytes, hfinal.received_eq, hfinal.header_eq] at hbytes
    split_ifs at hbytes with hleft
    have hbuffer : final.buffer = body := by
      have hsize : body.length = header.totalBytes := by rw [← hheader]; rfl
      refine hfinal.buffer_eq hvalidate (hcount.mpr (not_not.mp hleft)) hsize
        fun first hfirst ↦ ?_
      have hmem := (BeginTransfer.mem_of_mem_foldl_keep _ hfirst).resolve_left List.not_mem_nil
      obtain ⟨sent, -, rfl⟩ := List.mem_map.mp hmem
      rw [← hpiece, ← hheader]
      rfl
    rw [← Option.some.inj hbytes, hbuffer]
    exact body_format.round_trip _ _ hfits hbody

/-- The first snapshot of the sample context, when all its frames arrived twice. -/
theorem Delivered.snapshot_over_wire_first :
    let body : SnapshotBody := ⟨[⟨1, some ⟨9, 10, false⟩⟩, ⟨2, none⟩, ⟨3, some ⟨0, 12, true⟩⟩],
      some ⟨some 1, 2⟩⟩
    ∃ first rest chunks bytes,
      planTransfer (Vector.replicate 16 7) 1 4 9 1 body = .ok (first :: rest) ∧
      List.Forall₂ (fun frame chunk ↦ decodeDown frame = .ok (.chunk chunk)) (rest ++ rest) chunks ∧
      decodeBody bytes = .ok body := by
  intro body
  obtain ⟨projection, after, hproject, hrendered⟩ := planned_sample.projectSnapshot
  have hbody : projection.body = body := by
    rw [hrendered]
    decide +kernel
  obtain ⟨_, first, rest, _, _, hplan, -, -, -, -, -, harrive⟩ :=
    @Delivered.snapshot_over_wire _ (Vector.replicate 16 7) _ _ _ _ .start _ hproject 1 4 9 1
      (hbody ▸ ⟨by simp [body, SnapshotEntity.Fits, HealthFact.Fits],
        by simp [body, TurnFact.Fits]⟩) (by decide) (by decide) (by decide) (by decide) (by decide)
      (by decide)
  obtain ⟨chunks, final, hchunks, -, -, hwhole, hbytes⟩ := harrive (rest ++ rest) (by simp)
  obtain ⟨bytes, hsome⟩ := Option.isSome_iff_exists.mp (hwhole.mpr (List.subset_append_left ..))
  exact ⟨first, rest, chunks, bytes, hbody ▸ hplan, hchunks, hbody ▸ hbytes bytes hsome⟩

end Crpg.Net
