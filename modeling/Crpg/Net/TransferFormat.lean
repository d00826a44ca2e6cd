import Crpg.Net.CodecTransfer

/-!
# The snapshot transfer format is sound

`transfer_format` follows a body through the whole path of a transfer: it is bounded, its plan is a
valid header and the chunks that the header announces, every frame decodes, and the payloads make up
a body that decodes to the first one. Each decoder accepts only what its encoder takes.
-/

set_option autoImplicit false

namespace Crpg.Net

open Crpg.Core Crpg.Lib
open List (append_assoc append_nil flatMap_cons flatten_cons length_append length_cons length_drop
  length_map length_range' length_singleton map_cons)

/-! ### Bodies -/

def HealthFact.Fits (fact : HealthFact) : Prop := fact.health < 2 ^ 32 ∧ fact.maxHealth < 2 ^ 32

def SnapshotEntity.Fits (row : SnapshotEntity) : Prop :=
  (row.entity : ℕ) < 2 ^ 64 ∧ ∀ fact ∈ row.health, fact.Fits

def TurnFact.Fits (fact : TurnFact) : Prop :=
  (∀ entity ∈ fact.active, (entity : ℕ) < 2 ^ 64) ∧ fact.round < 2 ^ 64

structure SnapshotBody.Fits (body : SnapshotBody) : Prop where
  entities : ∀ row ∈ body.entities, row.Fits
  turn : ∀ fact ∈ body.turn, fact.Fits

/-- A body the encoder takes: a bounded number of rows with ascending ids, and an active id among
them. -/
structure SnapshotBody.Encodable (body : SnapshotBody) : Prop where
  count : body.entities.length ≤ maxVisibleEntities
  sorted : (body.entities.map fun row ↦ (row.entity : ℕ)).Pairwise (· < ·)
  active : ∀ fact ∈ body.turn, ∀ id ∈ fact.active, ∃ row ∈ body.entities, row.entity = id

def putBody (body : SnapshotBody) : List UInt8 :=
  putInt 64 body.entities.length ++ (body.entities.flatMap putRow ++ putOption putTurn body.turn)

theorem unsorted_eq_false_iff (last : Option ℕ) (rows : List SnapshotEntity) :
    unsorted last rows = false ↔ (rows.map fun row ↦ (row.entity : ℕ)).Pairwise (· < ·) ∧
        ∀ before ∈ last, ∀ row ∈ rows, before < (row.entity : ℕ) := by
  induction rows generalizing last with
  | nil => simp [unsorted]
  | cons row rest ih =>
    have hrest := ih (some row.entity)
    simp only [Option.mem_def, Option.some.injEq, forall_eq'] at hrest
    rw [unsorted, map_cons, List.pairwise_cons]
    cases last with
    | none => simp [hrest, and_comm]
    | some before =>
      by_cases hle : (row.entity : ℕ) ≤ before
      · simp only [Option.any_some, hle, decide_true, if_true, Bool.true_eq_false, false_iff]
        rintro ⟨-, hall⟩
        exact absurd (hall before rfl row List.mem_cons_self) (not_lt.mpr hle)
      · simp only [Option.any_some, hle, decide_false, Bool.false_eq_true, if_false, hrest,
          List.mem_map, forall_exists_index, and_imp, forall_apply_eq_imp_iff₂, Option.mem_def,
          Option.some.injEq, forall_eq', List.mem_cons, forall_eq_or_imp]
        constructor
        · rintro ⟨hsorted, habove⟩
          exact ⟨⟨habove, hsorted⟩, not_le.mp hle, fun other hother ↦
            (not_le.mp hle).trans (habove other hother)⟩
        · rintro ⟨⟨habove, hsorted⟩, -, -⟩
          exact ⟨hsorted, habove⟩

theorem strayActive_eq_false_iff (rows : List SnapshotEntity) (active : Option NetId) :
    strayActive rows active = false ↔
      ∀ entity ∈ active, strayActive rows (some entity) = false := by
  cases active with
  | none => exact ⟨fun _ _ hmem ↦ absurd hmem (Option.not_mem_none _), fun _ ↦ rfl⟩
  | some entity =>
    exact ⟨fun hstray other hmem ↦ Option.mem_some_iff.mp hmem ▸ hstray,
      fun hall ↦ hall entity rfl⟩

theorem strayActive_some_eq_false_iff (rows : List SnapshotEntity) (id : NetId) :
    strayActive rows (some id) = false ↔ ∃ row ∈ rows, row.entity = id := by
  simp [strayActive]

theorem SnapshotBody.encodable_iff (body : SnapshotBody) : body.Encodable ↔
    body.entities.length ≤ maxVisibleEntities ∧ unsorted none body.entities = false ∧
      strayActive body.entities (body.turn.bind TurnFact.active) = false := by
  have hsorted : unsorted none body.entities = false ↔
      (body.entities.map fun row ↦ (row.entity : ℕ)).Pairwise (· < ·) := by
    rw [unsorted_eq_false_iff]
    exact and_iff_left fun _ hmem ↦ absurd hmem (Option.not_mem_none _)
  rw [hsorted, strayActive_eq_false_iff]
  simp only [strayActive_some_eq_false_iff, Option.mem_bind_iff]
  exact ⟨fun hbody ↦ ⟨hbody.count, hbody.sorted, fun id ⟨fact, hfact, hid⟩ ↦
      hbody.active fact hfact id hid⟩,
    fun hbody ↦ ⟨hbody.1, hbody.2.1, fun fact hfact id hid ↦ hbody.2.2 id ⟨fact, hfact, hid⟩⟩⟩

theorem codes_health : Codes (fun fact bytes ↦ fact.Fits ∧ bytes = putHealth fact) takeHealth := by
  refine (codes_u32.bind fun health _ ↦ codes_u32.bind fun most _ ↦ codes_flag.bind
    fun dead _ ↦ Codes.pure _).congr fun fact bytes ↦ ⟨?_, ?_⟩
  · rintro ⟨health, -, -, ⟨hhealth, rfl⟩, ⟨most, -, -, ⟨hmost, rfl⟩, ⟨dead, -, -, rfl,
      ⟨rfl, rfl⟩, rfl⟩, rfl⟩, rfl⟩
    rw [append_nil]
    exact ⟨⟨hhealth, hmost⟩, rfl⟩
  · rintro ⟨hfits, rfl⟩
    refine ⟨fact.health, _, _, ⟨hfits.1, rfl⟩, ⟨fact.maxHealth, _, _, ⟨hfits.2, rfl⟩,
      ⟨fact.dead, _, [], rfl, ⟨rfl, rfl⟩, rfl⟩, rfl⟩, ?_⟩
    rw [append_nil, putHealth]

theorem codes_rows (count : ℕ) (last : Option ℕ) :
    Codes (fun rows bytes ↦ rows.length = count ∧ unsorted last rows = false ∧
      (∀ row ∈ rows, row.Fits) ∧ bytes = rows.flatMap putRow) (takeRows count last) := by
  induction count generalizing last with
  | zero =>
    refine (Codes.pure _).congr fun rows bytes ↦ ⟨?_, ?_⟩
    · rintro ⟨rfl, rfl⟩
      exact ⟨rfl, rfl, fun _ hmem ↦ absurd hmem List.not_mem_nil, rfl⟩
    · rintro ⟨hlength, -, -, rfl⟩
      rw [List.eq_nil_of_length_eq_zero hlength]
      exact ⟨rfl, rfl⟩
  | succ count ih =>
    refine (codes_netId.bind fun entity _ ↦ ((codes_option codes_health).bind fun health _ ↦
      (ih (some entity)).bind fun rest _ ↦ Codes.pure _).guard CodecError.malformed
        (last.any (fun before ↦ (entity : ℕ) ≤ before) = true)).congr fun rows bytes ↦ ⟨?_, ?_⟩
    · rintro ⟨entity, -, -, ⟨hentity, rfl⟩, ⟨hlast, health, -, -, ⟨hhealth, rfl⟩, ⟨rest, -, -,
        ⟨hlength, hsorted, hfits, rfl⟩, ⟨rfl, rfl⟩, rfl⟩, rfl⟩, rfl⟩
      refine ⟨congrArg Nat.succ hlength, ?_, ?_, ?_⟩
      · rw [unsorted, if_neg hlast, hsorted]
      · exact List.forall_mem_cons.mpr ⟨⟨hentity, hhealth⟩, hfits⟩
      · rw [append_nil, flatMap_cons, putRow, append_assoc]
    · rintro ⟨hlength, hsorted, hfits, rfl⟩
      cases rows with
      | nil => exact absurd hlength.symm (Nat.succ_ne_zero _)
      | cons row rest =>
        obtain ⟨hrow, hrest⟩ := List.forall_mem_cons.mp hfits
        rw [unsorted] at hsorted
        split_ifs at hsorted with hlast
        refine ⟨row.entity, _, _, ⟨hrow.1, rfl⟩, ⟨hlast, row.health, _, _, ⟨hrow.2, rfl⟩,
          ⟨rest, _, [], ⟨Nat.succ.inj hlength, hsorted, hrest, rfl⟩, ⟨rfl, rfl⟩, rfl⟩, rfl⟩, ?_⟩
        rw [append_nil, flatMap_cons, putRow, append_assoc]

theorem codes_activeAmong (rows : List SnapshotEntity) :
    Codes (fun (entity : NetId) bytes ↦ ((entity : ℕ) < 2 ^ 64 ∧
      strayActive rows (some entity) = false) ∧ bytes = putInt 64 entity)
      (takeActiveAmong rows) := by
  refine (codes_netId.bind fun entity _ ↦ (Codes.pure entity).guard CodecError.malformed
    (strayActive rows (some entity) = true)).congr fun entity bytes ↦ ⟨?_, ?_⟩
  · rintro ⟨read, -, -, ⟨hread, rfl⟩, ⟨hstray, rfl, rfl⟩, rfl⟩
    rw [append_nil]
    exact ⟨⟨hread, (Bool.not_eq_true _).mp hstray⟩, rfl⟩
  · rintro ⟨⟨hentity, hstray⟩, rfl⟩
    exact ⟨entity, _, [], ⟨hentity, rfl⟩, ⟨(Bool.not_eq_true _).mpr hstray, rfl, rfl⟩,
      (append_nil _).symm⟩

theorem codes_turn (rows : List SnapshotEntity) :
    Codes (fun fact bytes ↦ (fact.Fits ∧ strayActive rows fact.active = false) ∧
      bytes = putTurn fact) (takeTurn rows) := by
  refine ((codes_option (codes_activeAmong rows)).bind fun active _ ↦ codes_u64.bind
    fun round _ ↦ Codes.pure _).congr fun fact bytes ↦ ⟨?_, ?_⟩
  · rintro ⟨active, -, -, ⟨hactive, rfl⟩, ⟨round, -, -, ⟨hround, rfl⟩, ⟨rfl, rfl⟩, rfl⟩, rfl⟩
    rw [append_nil]
    exact ⟨⟨⟨fun entity hmem ↦ (hactive entity hmem).1, hround⟩,
      (strayActive_eq_false_iff rows active).mpr fun entity hmem ↦ (hactive entity hmem).2⟩, rfl⟩
  · rintro ⟨⟨hfits, hstray⟩, rfl⟩
    refine ⟨fact.active, _, _, ⟨fun entity hmem ↦ ⟨hfits.1 entity hmem,
      (strayActive_eq_false_iff rows fact.active).mp hstray entity hmem⟩, rfl⟩,
      ⟨fact.round, _, [], ⟨hfits.2, rfl⟩, ⟨rfl, rfl⟩, rfl⟩, ?_⟩
    rw [append_nil]
    rfl

theorem length_putRow_le (row : SnapshotEntity) : (putRow row).length ≤ 22 := by
  have hentity : (putInt 64 row.entity).length ≤ 10 := length_putInt_le 64 _
  have hhealth : (putOption putHealth row.health).length ≤ 12 := by
    cases row.health with
    | none => exact Nat.le_of_ble_eq_true rfl
    | some fact =>
      have hcurrent : (putInt 32 fact.health).length ≤ 5 := length_putInt_le 32 _
      have hmost : (putInt 32 fact.maxHealth).length ≤ 5 := length_putInt_le 32 _
      simp only [putOption, putHealth, putBool, length_append, length_singleton]
      omega
  rw [putRow, length_append]
  omega

theorem length_putTurn_le (turn : Option TurnFact) : (putOption putTurn turn).length ≤ 22 := by
  cases turn with
  | none => exact Nat.le_of_ble_eq_true rfl
  | some fact =>
    have hround : (putInt 64 fact.round).length ≤ 10 := length_putInt_le 64 _
    have hactive : (putActive fact.active).length ≤ 11 := by
      cases fact.active with
      | none => exact Nat.le_of_ble_eq_true rfl
      | some entity =>
        have hentity : (putInt 64 entity).length ≤ 10 := length_putInt_le 64 _
        simp only [putActive, putOption, putBool, length_append, length_singleton]
        omega
    simp only [putOption, putTurn, putBool, length_append, length_singleton]
    omega

/-- A body with a bounded number of rows is bounded. -/
theorem length_putBody_le {body : SnapshotBody}
    (hcount : body.entities.length ≤ maxVisibleEntities) :
    (putBody body).length ≤ maxEncodedBodyBytes := by
  have hlength : (putInt 64 body.entities.length).length ≤ 2 := by
    rw [putInt]
    exact length_putVarint_le_of_lt (hcount.trans_lt (by decide))
  have hrows (rows : List SnapshotEntity) : (rows.flatMap putRow).length ≤ 22 * rows.length := by
    induction rows with
    | nil => exact le_rfl
    | cons row rest ih =>
      have hrow := length_putRow_le row
      rw [flatMap_cons, length_append, length_cons]
      omega
  have hentities := hrows body.entities
  have hturn := length_putTurn_le body.turn
  rw [putBody, length_append, length_append]
  unfold maxEncodedBodyBytes
  unfold maxVisibleEntities at hcount
  omega

variable {bytes : List UInt8}

theorem encodeBody_eq_ok_iff {body : SnapshotBody} :
    encodeBody body = .ok bytes ↔ body.Encodable ∧ bytes = putBody body := by
  rw [SnapshotBody.encodable_iff]
  unfold encodeBody
  split_ifs with hcount hsorted hactive
  · exact ⟨False.elim, fun hbody ↦ absurd hbody.1.1 (not_le.mpr hcount)⟩
  · exact ⟨False.elim, fun hbody ↦ nomatch hsorted.symm.trans hbody.1.2.1⟩
  · exact ⟨False.elim, fun hbody ↦ nomatch hactive.symm.trans hbody.1.2.2⟩
  · have hshort : (putBody body).length ≤ maxSnapshotBytes :=
      (length_putBody_le (not_lt.mp hcount)).trans (by decide)
    show (if maxSnapshotBytes < (putBody body).length then _ else _) = _ ↔ _
    rw [if_neg (not_lt.mpr hshort), Except.ok.injEq]
    exact ⟨fun hbytes ↦ ⟨⟨not_lt.mp hcount, (Bool.not_eq_true _).mp hsorted,
      (Bool.not_eq_true _).mp hactive⟩, hbytes.symm⟩, fun hbody ↦ hbody.2.symm⟩

theorem codes_body : Codes (fun body bytes ↦ body.Fits ∧ encodeBody body = .ok bytes) takeBody := by
  refine (codes_u64.bind fun count _ ↦ ((codes_rows count none).bind fun rows _ ↦
    (codes_option (codes_turn rows)).bind fun turn _ ↦ Codes.pure _).guard
      CodecError.limitExceeded (maxVisibleEntities < count)).congr fun body bytes ↦ ⟨?_, ?_⟩
  · rintro ⟨count, -, -, ⟨-, rfl⟩, ⟨hcount, rows, -, -, ⟨hlength, hsorted, hrows, rfl⟩,
      ⟨turn, -, -, ⟨hturn, rfl⟩, ⟨rfl, rfl⟩, rfl⟩, rfl⟩, rfl⟩
    subst hlength
    refine ⟨⟨hrows, fun fact hmem ↦ (hturn fact hmem).1⟩, encodeBody_eq_ok_iff.mpr
      ⟨(SnapshotBody.encodable_iff _).mpr ⟨not_lt.mp hcount, hsorted, ?_⟩, ?_⟩⟩
    · cases turn with
      | none => rfl
      | some fact => exact (hturn fact rfl).2
    · rw [append_nil, putBody]
  · rintro ⟨hfits, hencode⟩
    obtain ⟨hbody, rfl⟩ := encodeBody_eq_ok_iff.mp hencode
    obtain ⟨hlength, hsorted, hactive⟩ := (SnapshotBody.encodable_iff _).mp hbody
    have hcount : body.entities.length < 2 ^ 64 := hlength.trans_lt (by decide)
    refine ⟨body.entities.length, _, _, ⟨hcount, rfl⟩, ⟨not_lt.mpr hlength, body.entities, _,
      _, ⟨rfl, hsorted, hfits.entities, rfl⟩, ⟨body.turn, _, [], ⟨fun fact hmem ↦
        ⟨hfits.turn fact hmem, ?_⟩, rfl⟩, ⟨rfl, rfl⟩, rfl⟩, rfl⟩, ?_⟩
    · rw [Option.mem_def.mp hmem] at hactive
      exact hactive
    · rw [append_nil, putBody]

theorem body_format :
    WireFormat SnapshotBody.Fits SnapshotBody.Encodable encodeBody decodeBody := by
  refine wireFormat_of_codes (fun _ _ ↦ encodeBody_eq_ok_iff)
    (fun body hbody ↦ (length_putBody_le hbody.count).trans (by decide)) (fun body ↦ ?_) codes_body
  unfold encodeBody
  split_ifs
  · exact nofun
  · exact nofun
  · exact nofun
  · dsimp only
    split_ifs <;> exact nofun

/-! ### Headers -/

/-- What `validate` checks of a header. -/
structure BeginTransfer.Valid (header : BeginTransfer) : Prop where
  cursor : header.cursor ≤ seqLast
  total_ne_zero : header.totalBytes ≠ 0
  total_le : header.totalBytes ≤ maxSnapshotBytes
  entities_le : header.entityCount ≤ maxVisibleEntities
  segments_ne_zero : header.segmentsPerChunk ≠ 0
  segments_le : header.segmentsPerChunk ≤ maxSegmentsPerChunk
  chunks_ne_zero : header.chunkCount ≠ 0
  chunks_le : header.chunkCount ≤ maxSnapshotChunks
  chunks_eq : (header.totalBytes + (header.chunkSize - 1)) / header.chunkSize = header.chunkCount

theorem BeginTransfer.validate_eq_ok_iff {header : BeginTransfer} :
    header.validate = .ok () ↔ header.Valid := by
  unfold BeginTransfer.validate
  split_ifs with hcursor hzero htotal hentities hnone hsegments hempty hchunks hcount
  · exact ⟨False.elim, fun hvalid ↦ absurd hvalid.cursor (not_le.mpr hcursor)⟩
  · exact ⟨False.elim, fun hvalid ↦ hvalid.total_ne_zero hzero⟩
  · exact ⟨False.elim, fun hvalid ↦ absurd hvalid.total_le (not_le.mpr htotal)⟩
  · exact ⟨False.elim, fun hvalid ↦ absurd hvalid.entities_le (not_le.mpr hentities)⟩
  · exact ⟨False.elim, fun hvalid ↦ hvalid.segments_ne_zero hnone⟩
  · exact ⟨False.elim, fun hvalid ↦ absurd hvalid.segments_le (not_le.mpr hsegments)⟩
  · exact ⟨False.elim, fun hvalid ↦ hvalid.chunks_ne_zero hempty⟩
  · exact ⟨False.elim, fun hvalid ↦ absurd hvalid.chunks_le (not_le.mpr hchunks)⟩
  · exact ⟨False.elim, fun hvalid ↦ hcount hvalid.chunks_eq⟩
  · exact ⟨fun _ ↦ ⟨not_lt.mp hcursor, hzero, not_lt.mp htotal, not_lt.mp hentities, hnone,
      not_lt.mp hsegments, hempty, not_lt.mp hchunks, not_not.mp hcount⟩, fun _ ↦ rfl⟩

/-- The fields of a header fit their types, apart from those that `validate` bounds. -/
def BeginTransfer.Fits (header : BeginTransfer) : Prop :=
  (header.transfer : ℕ) < 2 ^ 64 ∧ header.baseTick < 2 ^ 64

theorem codes_begin :
    Codes (fun header bytes ↦ header.Fits ∧ header.Valid ∧ bytes = putBegin header) takeBegin := by
  refine (codes_epoch.bind fun epoch _ ↦ codes_netId.bind fun transfer _ ↦ codes_u64.bind
    fun tick _ ↦ codes_u64.bind fun cursor _ ↦ (codes_u64.bind fun total _ ↦
    ((codes_u64.bind fun count _ ↦ (codes_u8.bind fun size _ ↦ ((codes_u8.bind fun chunks _ ↦
    ((((Codes.pure _).guard CodecError.malformed ((total + (size * maxSegmentBytes - 1)) /
      (size * maxSegmentBytes) ≠ chunks)).guard .limitExceeded
      (maxSnapshotChunks < chunks)).guard .malformed (chunks = 0))).guard .limitExceeded
      (maxSegmentsPerChunk < size)).guard .malformed (size = 0)).guard .limitExceeded
      (maxVisibleEntities < count)).guard .malformed (total = 0)).guard .limitExceeded
      (maxSnapshotBytes < total)).guard .malformed (seqLast < cursor)).congr
    fun header bytes ↦ ⟨?_, ?_⟩
  · rintro ⟨epoch, -, -, rfl, ⟨transfer, -, -, ⟨htransfer, rfl⟩, ⟨tick, -, -, ⟨htick, rfl⟩,
      ⟨cursor, -, -, ⟨-, rfl⟩, ⟨hcursor, total, -, -, ⟨-, rfl⟩, ⟨htotal, hzero, count, -, -,
      ⟨-, rfl⟩, ⟨hcount, size, -, -, ⟨-, rfl⟩, ⟨hnone, hsize, chunks, -, -, ⟨-, rfl⟩, ⟨hempty,
      hchunks, heq, rfl, rfl⟩, rfl⟩, rfl⟩, rfl⟩, rfl⟩, rfl⟩, rfl⟩, rfl⟩, rfl⟩
    have htotalNarrow : total % 2 ^ 32 = total :=
      Nat.mod_eq_of_lt ((not_lt.mp htotal).trans_lt (by decide))
    have hcountNarrow : count % 2 ^ 16 = count :=
      Nat.mod_eq_of_lt ((not_lt.mp hcount).trans_lt (by decide))
    rw [htotalNarrow, hcountNarrow, append_nil]
    exact ⟨⟨htransfer, htick⟩, ⟨not_lt.mp hcursor, hzero, not_lt.mp htotal, not_lt.mp hcount,
      hnone, not_lt.mp hsize, hempty, not_lt.mp hchunks, not_not.mp heq⟩, rfl⟩
  · rintro ⟨hfits, hvalid, rfl⟩
    have hcursor : header.cursor < 2 ^ 64 := hvalid.cursor.trans_lt (by decide)
    have htotal : header.totalBytes < 2 ^ 32 := hvalid.total_le.trans_lt (by decide)
    have hcount : header.entityCount < 2 ^ 16 := hvalid.entities_le.trans_lt (by decide)
    have hsize : header.segmentsPerChunk < 256 := hvalid.segments_le.trans_lt (by decide)
    have hchunks : header.chunkCount < 256 := hvalid.chunks_le.trans_lt (by decide)
    refine ⟨header.epoch, _, _, rfl, ⟨header.transfer, _, _, ⟨hfits.1, rfl⟩, ⟨header.baseTick, _, _,
      ⟨hfits.2, rfl⟩, ⟨header.cursor, _, _, ⟨hcursor, rfl⟩, ⟨not_lt.mpr hvalid.cursor,
      header.totalBytes, _, _, ⟨htotal.trans (by decide), rfl⟩, ⟨not_lt.mpr hvalid.total_le,
      hvalid.total_ne_zero, header.entityCount, _, _, ⟨hcount.trans (by decide), rfl⟩,
      ⟨not_lt.mpr hvalid.entities_le, header.segmentsPerChunk, _, _, ⟨hsize, rfl⟩,
      ⟨hvalid.segments_ne_zero, not_lt.mpr hvalid.segments_le, header.chunkCount, _, [],
      ⟨hchunks, rfl⟩, ⟨hvalid.chunks_ne_zero, not_lt.mpr hvalid.chunks_le,
      not_not.mpr hvalid.chunks_eq, ?_, rfl⟩, rfl⟩, rfl⟩, rfl⟩, rfl⟩, rfl⟩, rfl⟩, rfl⟩, ?_⟩
    · rw [Nat.mod_eq_of_lt htotal, Nat.mod_eq_of_lt hcount]
    · rw [append_nil, putBegin]

/-! ### Chunks -/

variable {payload : List UInt8}

theorem segmentsFrom_eq_nil_iff {fuel : ℕ} (hfuel : payload.length ≤ fuel) :
    segmentsFrom fuel payload = [] ↔ payload = [] := by
  cases payload with
  | nil => cases fuel <;> simp [segmentsFrom]
  | cons byte rest =>
    cases fuel with
    | zero => exact absurd hfuel (Nat.not_succ_le_zero _)
    | succ fuel => simp [segmentsFrom]

/-- More fuel than bytes makes no difference. -/
theorem segmentsFrom_of_le {fuel : ℕ} (hfuel : payload.length ≤ fuel) :
    segmentsFrom fuel payload = segments payload := by
  have hany (first second : ℕ) : ∀ payload : List UInt8, payload.length ≤ first →
      payload.length ≤ second → segmentsFrom first payload = segmentsFrom second payload := by
    induction first generalizing second with
    | zero =>
      intro payload hfirst _
      rw [List.eq_nil_of_length_eq_zero (Nat.le_zero.mp hfirst)]
      cases second <;> rfl
    | succ first ih =>
      intro payload hfirst hsecond
      cases payload with
      | nil => cases second <;> rfl
      | cons byte rest =>
        cases second with
        | zero => exact absurd hsecond (Nat.not_succ_le_zero _)
        | succ second =>
          rw [segmentsFrom, segmentsFrom]
          have hdrop : ((byte :: rest).drop maxSegmentBytes).length ≤ rest.length := by
            rw [length_drop, length_cons]
            unfold maxSegmentBytes
            omega
          rw [length_cons] at hfirst hsecond
          rw [ih second _ (by omega) (by omega)]
  exact hany fuel payload.length payload hfuel le_rfl

theorem segments_of_ne_nil (hpayload : payload ≠ []) : segments payload =
      payload.take maxSegmentBytes :: segments (payload.drop maxSegmentBytes) := by
  cases payload with
  | nil => exact absurd rfl hpayload
  | cons byte rest =>
    rw [segments, length_cons, segmentsFrom, segmentsFrom_of_le]
    rw [length_drop, length_cons]
    unfold maxSegmentBytes
    omega

theorem segments_eq_nil_iff : segments payload = [] ↔ payload = [] :=
  segmentsFrom_eq_nil_iff le_rfl

theorem length_segments (payload : List UInt8) :
    (segments payload).length = (payload.length + (maxSegmentBytes - 1)) / maxSegmentBytes := by
  induction hlength : payload.length using Nat.strong_induction_on generalizing payload with
  | _ count ih =>
    by_cases hpayload : payload = []
    · subst hpayload
      subst hlength
      rfl
    · have hpos := List.length_pos_of_ne_nil hpayload
      have hdrop : (payload.drop maxSegmentBytes).length = payload.length - 4096 :=
        length_drop
      rw [segments_of_ne_nil hpayload, length_cons,
        ih _ (by omega) (payload.drop maxSegmentBytes) rfl, hdrop]
      unfold maxSegmentBytes
      omega

theorem codes_segments (count : ℕ) : Codes (fun payload bytes ↦ (segments payload).length = count ∧
      bytes = (segments payload).flatMap putSegment) (takeSegments count) := by
  induction count with
  | zero =>
    refine (Codes.pure _).congr fun payload bytes ↦ ⟨?_, ?_⟩
    · rintro ⟨rfl, rfl⟩
      exact ⟨rfl, rfl⟩
    · rintro ⟨hcount, rfl⟩
      have hnil := List.eq_nil_of_length_eq_zero hcount
      rw [hnil]
      exact ⟨segments_eq_nil_iff.mp hnil, rfl⟩
  | succ count ih =>
    refine (codes_u64.bind fun length _ ↦ ((((codes_raw CodecError.malformed length).bind
      fun segment _ ↦ ih.bind fun rest _ ↦ Codes.pure _).guard .malformed
        (count ≠ 0 ∧ length ≠ maxSegmentBytes)).guard .malformed (length = 0)).guard
        .limitExceeded (maxSegmentBytes < length)).congr fun payload bytes ↦ ⟨?_, ?_⟩
    · rintro ⟨length, -, -, ⟨-, rfl⟩, ⟨hbound, hzero, hfull, _, segment, -, ⟨hsegment, rfl⟩,
        ⟨rest, -, -, ⟨hcount, rfl⟩, ⟨rfl, rfl⟩, rfl⟩, rfl⟩, rfl⟩
      have hne : segment ++ rest ≠ [] := by
        intro hnil
        rw [(List.append_eq_nil_iff.mp hnil).1] at hsegment
        exact hzero hsegment.symm
      have hparts : (segment ++ rest).take maxSegmentBytes = segment ∧
          (segment ++ rest).drop maxSegmentBytes = rest := by
        by_cases hlast : count = 0
        · have hrest : rest = [] := by
            rw [hlast] at hcount
            exact segments_eq_nil_iff.mp (List.eq_nil_of_length_eq_zero hcount)
          have hshort : segment.length ≤ maxSegmentBytes := hsegment.trans_le (not_lt.mp hbound)
          rw [hrest, append_nil]
          exact ⟨List.take_of_length_le hshort, List.drop_of_length_le hshort⟩
        · have hexact : segment.length = maxSegmentBytes := by
            by_contra hother
            exact hfull ⟨hlast, hsegment ▸ hother⟩
          exact ⟨List.take_left' hexact, List.drop_left' hexact⟩
      rw [segments_of_ne_nil hne, hparts.1, hparts.2, length_cons, flatMap_cons, append_nil,
        putSegment, hsegment, append_assoc]
      exact ⟨congrArg Nat.succ hcount, rfl⟩
    · rintro ⟨hcount, rfl⟩
      have hne : payload ≠ [] := by
        rintro rfl
        exact absurd hcount.symm (Nat.succ_ne_zero _)
      have hpos := List.length_pos_of_ne_nil hne
      rw [segments_of_ne_nil hne, length_cons] at hcount
      have hsegment : (payload.take maxSegmentBytes).length = min maxSegmentBytes payload.length :=
        List.length_take
      have hbound : (payload.take maxSegmentBytes).length ≤ maxSegmentBytes :=
        hsegment ▸ min_le_left _ _
      have hzero : (payload.take maxSegmentBytes).length ≠ 0 := by
        rw [hsegment]
        unfold maxSegmentBytes
        omega
      have hfull : ¬(count ≠ 0 ∧ (payload.take maxSegmentBytes).length ≠ maxSegmentBytes) := by
        rintro ⟨hlast, hother⟩
        have hrest : payload.drop maxSegmentBytes ≠ [] := by
          intro hnil
          rw [hnil] at hcount
          exact hlast (Nat.succ.inj hcount).symm
        have hlong := List.length_pos_of_ne_nil hrest
        rw [length_drop] at hlong
        exact hother (hsegment.trans (min_eq_left (by omega)))
      refine ⟨(payload.take maxSegmentBytes).length, _, _, ⟨hbound.trans_lt (by decide), rfl⟩,
        ⟨not_lt.mpr hbound, hzero, hfull, payload.take maxSegmentBytes, _, _, ⟨rfl, rfl⟩,
        ⟨payload.drop maxSegmentBytes, _, [], ⟨Nat.succ.inj hcount, rfl⟩,
        ⟨(List.take_append_drop _ _).symm, rfl⟩, rfl⟩, rfl⟩, ?_⟩
      rw [segments_of_ne_nil hne, flatMap_cons, putSegment, append_nil, append_assoc]

/-- A chunk the encoder takes. -/
structure TransferChunk.Encodable (piece : TransferChunk) : Prop where
  index : piece.index < maxSnapshotChunks
  nonempty : piece.bytes ≠ []
  length : piece.bytes.length ≤ maxChunkBytes

def putChunk (piece : TransferChunk) : List UInt8 :=
  piece.epoch.toList ++ (putInt 64 piece.transfer ++ (putByte piece.index ++
    (putByte (segments piece.bytes).length ++ (segments piece.bytes).flatMap putSegment)))

theorem length_segments_le (hlength : payload.length ≤ maxChunkBytes) :
    (segments payload).length ≤ maxSegmentsPerChunk := by
  rw [length_segments]
  unfold maxSegmentsPerChunk maxSegmentBytes
  unfold maxChunkBytes at hlength
  omega

theorem codes_chunk : Codes (fun piece bytes ↦ (piece.transfer : ℕ) < 2 ^ 64 ∧ piece.Encodable ∧
    bytes = putChunk piece) takeChunk := by
  refine (codes_epoch.bind fun epoch _ ↦ codes_netId.bind fun transfer _ ↦ codes_u8.bind
    fun index _ ↦ (codes_u8.bind fun count _ ↦ (((codes_segments count).bind fun payload _ ↦
      ((Codes.pure _).guard CodecError.limitExceeded (maxChunkBytes < payload.length)).guard
        CodecError.malformed (payload = [])).guard .limitExceeded
        (maxSegmentsPerChunk < count)).guard .malformed (count = 0)).guard
        CodecError.limitExceeded (maxSnapshotChunks ≤ index)).congr
    fun piece bytes ↦ ⟨?_, ?_⟩
  · rintro ⟨epoch, -, -, rfl, ⟨transfer, -, -, ⟨htransfer, rfl⟩, ⟨index, -, -, ⟨-, rfl⟩, ⟨hindex,
      count, -, -, ⟨-, rfl⟩, ⟨-, -, payload, -, -, ⟨hcount, rfl⟩, ⟨hne, hlength, rfl, rfl⟩, rfl⟩,
      rfl⟩, rfl⟩, rfl⟩, rfl⟩
    subst hcount
    rw [append_nil]
    exact ⟨htransfer, ⟨not_le.mp hindex, hne, not_lt.mp hlength⟩, rfl⟩
  · rintro ⟨htransfer, hpiece, rfl⟩
    have hindex : piece.index < 256 := hpiece.index.trans (by decide)
    have hcount := length_segments_le hpiece.length
    have hzero : (segments piece.bytes).length ≠ 0 := fun hnone ↦ hpiece.nonempty
      (segments_eq_nil_iff.mp (List.eq_nil_of_length_eq_zero hnone))
    refine ⟨piece.epoch, _, _, rfl, ⟨piece.transfer, _, _, ⟨htransfer, rfl⟩, ⟨piece.index, _, _,
      ⟨hindex, rfl⟩, ⟨not_le.mpr hpiece.index, (segments piece.bytes).length, _, _,
      ⟨hcount.trans_lt (by decide), rfl⟩, ⟨hzero, not_lt.mpr hcount, piece.bytes, _, [],
      ⟨rfl, rfl⟩, ⟨hpiece.nonempty, not_lt.mpr hpiece.length, rfl, rfl⟩, rfl⟩, rfl⟩, rfl⟩, rfl⟩,
      ?_⟩
    rw [append_nil, putChunk]

theorem length_flatMap_putSegment_le (pieces : List (List UInt8)) :
    (pieces.flatMap putSegment).length ≤ 10 * pieces.length + pieces.flatten.length := by
  induction pieces with
  | nil => exact le_rfl
  | cons piece rest ih =>
    have hlength : (putInt 64 piece.length).length ≤ 10 := length_putInt_le 64 _
    simp only [flatMap_cons, putSegment, length_append, length_cons, flatten_cons]
    omega

theorem flatten_segments (payload : List UInt8) : (segments payload).flatten = payload := by
  induction hlength : payload.length using Nat.strong_induction_on generalizing payload with
  | _ count ih =>
    by_cases hpayload : payload = []
    · rw [hpayload]
      rfl
    · have hpos := List.length_pos_of_ne_nil hpayload
      have hdrop : (payload.drop maxSegmentBytes).length = payload.length - 4096 :=
        length_drop
      rw [segments_of_ne_nil hpayload, flatten_cons,
        ih _ (by omega) (payload.drop maxSegmentBytes) rfl, List.take_append_drop]

/-! ### Downstream messages -/

theorem CancelReason.fromU8_eq_some_iff {raw : ℕ} {reason : CancelReason} :
    fromU8 raw = some reason ↔ raw = reason.asU8 := by
  constructor
  · intro hsome
    unfold fromU8 at hsome
    split at hsome <;> cases hsome <;> rfl
  · rintro rfl
    cases reason <;> rfl

theorem ResyncReason.fromU8_eq_some_iff {raw : ℕ} {reason : ResyncReason} :
    fromU8 raw = some reason ↔ raw = reason.asU8 := by
  constructor
  · intro hsome
    unfold fromU8 at hsome
    split at hsome <;> cases hsome <;> rfl
  · rintro rfl
    cases reason <;> rfl

namespace TransferDown

/-- The fields of a message fit their types. -/
def Fits : TransferDown → Prop
  | .begin header => header.Fits
  | .chunk piece => (piece.transfer : ℕ) < 2 ^ 64
  | .cancel _ transfer _ => (transfer : ℕ) < 2 ^ 64

/-- A message the encoder takes. -/
def Encodable : TransferDown → Prop
  | .begin header => header.Valid
  | .chunk piece => piece.Encodable
  | .cancel .. => True

def tag : TransferDown → ℕ
  | .begin _ => transferTagBegin
  | .chunk _ => transferTagChunk
  | .cancel .. => transferTagCancel

def putFields : TransferDown → List UInt8
  | .begin header => putBegin header
  | .chunk piece => putChunk piece
  | .cancel epoch transfer reason =>
    epoch.toList ++ (putInt 64 transfer ++ putByte reason.asU8)

def put (message : TransferDown) : List UInt8 :=
  putTransferHeader message.tag ++ message.putFields

end TransferDown

variable {message : TransferDown}

theorem length_putDown_le (hmessage : message.Encodable) :
    message.put.length ≤ maxDownFrameBytes := by
  have hint (value : ℕ) : (putInt 64 value).length ≤ 10 := length_putInt_le 64 value
  have hfields : message.putFields.length ≤ 40000 := by
    cases message with
    | «begin» header =>
      have htransfer := hint header.transfer
      have htick := hint header.baseTick
      have hcursor := hint header.cursor
      have htotal := hint header.totalBytes
      have hcount := hint header.entityCount
      simp only [TransferDown.putFields, putBegin, putByte, length_append, length_singleton,
        Vector.length_toList]
      omega
    | chunk piece =>
      have htransfer := hint piece.transfer
      have hsegments := length_flatMap_putSegment_le (segments piece.bytes)
      have hcount := length_segments_le hmessage.length
      have hlength := hmessage.length
      rw [flatten_segments] at hsegments
      simp only [TransferDown.putFields, putChunk, putByte, length_append, length_singleton,
        Vector.length_toList]
      unfold maxSegmentsPerChunk at hcount
      unfold maxChunkBytes at hlength
      omega
    | cancel epoch transfer reason =>
      have htransfer := hint transfer
      simp only [TransferDown.putFields, putByte, length_append, length_singleton,
        Vector.length_toList]
      omega
  have hheader : (putTransferHeader message.tag).length = 3 := rfl
  rw [TransferDown.put, length_append, hheader]
  unfold maxDownFrameBytes maxDeltaFrameBytes
  omega

theorem capped_of_le {cap : ℕ} {out : List UInt8} (hshort : out.length ≤ cap) :
    capped cap out = .ok out := if_neg (not_lt.mpr hshort)

theorem encodeDown_of_encodable (hmessage : message.Encodable) :
    encodeDown message = .ok message.put := by
  have hcapped := capped_of_le (length_putDown_le hmessage)
  cases message with
  | «begin» header =>
    rw [encodeDown, BeginTransfer.validate_eq_ok_iff.mpr hmessage]
    exact hcapped
  | chunk piece =>
    rw [encodeDown, if_neg (not_le.mpr hmessage.index), if_neg hmessage.nonempty,
      if_neg (not_lt.mpr hmessage.length),
      if_neg (not_lt.mpr (length_segments_le hmessage.length))]
    exact hcapped
  | cancel epoch transfer reason =>
    rw [encodeDown, if_neg (by cases reason <;> decide)]
    exact hcapped

theorem encodeDown_eq_ok_iff :
    encodeDown message = .ok bytes ↔ message.Encodable ∧ bytes = message.put := by
  constructor
  · intro hencode
    have hmessage : message.Encodable := by
      cases message with
      | «begin» header =>
        obtain ⟨⟨⟩, hvalid, -⟩ := except_bind_eq_ok_iff.mp hencode
        exact BeginTransfer.validate_eq_ok_iff.mp hvalid
      | chunk piece =>
        rw [encodeDown] at hencode
        split_ifs at hencode with hindex hne hlength hcount
        exact ⟨not_le.mp hindex, hne, not_lt.mp hlength⟩
      | cancel epoch transfer reason => trivial
    rw [encodeDown_of_encodable hmessage] at hencode
    exact ⟨hmessage, (Except.ok.inj hencode).symm⟩
  · rintro ⟨hmessage, rfl⟩
    exact encodeDown_of_encodable hmessage

theorem encodeDown_ne_frameTooLarge (message : TransferDown) :
    encodeDown message ≠ .error .frameTooLarge := by
  by_cases hmessage : message.Encodable
  · rw [encodeDown_of_encodable hmessage]
    exact nofun
  · cases message with
    | «begin» header =>
      refine except_bind_ne_error ?_ fun value hvalid ↦ absurd
        (BeginTransfer.validate_eq_ok_iff.mp hvalid) hmessage
      unfold BeginTransfer.validate
      split_ifs <;> exact nofun
    | chunk piece =>
      rw [encodeDown]
      split_ifs with hindex hne hlength hcount
      · exact nofun
      · exact nofun
      · exact nofun
      · exact nofun
      · exact absurd ⟨not_le.mp hindex, hne, not_lt.mp hlength⟩ hmessage
    | cancel epoch transfer reason => exact absurd trivial hmessage

theorem codes_transferTag :
    Codes (fun tag bytes ↦ tag < 256 ∧ bytes = putTransferHeader tag) takeTransferTag := by
  refine (codes_u8.bind fun version _ ↦ (codes_u8.bind fun lane _ ↦ codes_u8.guard
    CodecError.wrongDirection (lane ≠ laneSnapshot)).guard .unsupportedVersion
      (version ≠ transferVersion)).congr fun tag bytes ↦ ⟨?_, ?_⟩
  · rintro ⟨version, -, -, ⟨-, rfl⟩, ⟨hversion, lane, -, -, ⟨-, rfl⟩, ⟨hlane, htag, rfl⟩, rfl⟩,
      rfl⟩
    rw [not_not.mp hversion, not_not.mp hlane]
    exact ⟨htag, rfl⟩
  · rintro ⟨htag, rfl⟩
    exact ⟨transferVersion, _, _, ⟨by decide, rfl⟩, ⟨not_not.mpr rfl, laneSnapshot, _, _,
      ⟨by decide, rfl⟩, ⟨not_not.mpr rfl, htag, rfl⟩, rfl⟩, rfl⟩

def CanonicalDown (tag : ℕ) (message : TransferDown) (bytes : List UInt8) : Prop :=
  message.tag = tag ∧ message.Fits ∧ message.Encodable ∧ bytes = message.putFields

theorem codes_cancel : Codes (CanonicalDown transferTagCancel) takeCancel := by
  refine (codes_epoch.bind fun epoch _ ↦ codes_netId.bind fun transfer _ ↦ codes_u8.bind
    fun raw _ ↦ (Codes.okOr _ (CancelReason.fromU8 raw)).bind fun reason _ ↦ Codes.pure _).congr
    fun message bytes ↦ ⟨?_, ?_⟩
  · rintro ⟨epoch, -, -, rfl, ⟨transfer, -, -, ⟨htransfer, rfl⟩, ⟨raw, -, -, ⟨-, rfl⟩,
      ⟨reason, -, -, ⟨hreason, rfl⟩, ⟨rfl, rfl⟩, rfl⟩, rfl⟩, rfl⟩, rfl⟩
    rw [append_nil, append_nil, CancelReason.fromU8_eq_some_iff.mp hreason]
    exact ⟨rfl, htransfer, trivial, rfl⟩
  · rintro ⟨htag, hfits, -, rfl⟩
    cases message with
    | cancel epoch transfer reason =>
      refine ⟨epoch, _, _, rfl, ⟨transfer, _, _, ⟨hfits, rfl⟩, ⟨reason.asU8, _, [],
        ⟨by cases reason <;> decide, rfl⟩, ⟨reason, [], [],
        ⟨CancelReason.fromU8_eq_some_iff.mpr rfl, rfl⟩, ⟨rfl, rfl⟩, rfl⟩, rfl⟩, rfl⟩, ?_⟩
      rw [append_nil, TransferDown.putFields]
    | _ => exact nomatch htag

theorem codes_downAfter (tag : ℕ) : Codes (CanonicalDown tag) (takeDownAfter tag) := by
  have hrefused (fault : CodecError) (hbegin : tag ≠ transferTagBegin)
      (hchunk : tag ≠ transferTagChunk) (hcancel : tag ≠ transferTagCancel) :
      Codes (CanonicalDown tag) (throw fault : WireReader TransferDown) := by
    refine (Codes.throw _).congr fun message bytes ↦ ⟨fun hfalse ↦ hfalse.elim, fun hmessage ↦ ?_⟩
    cases message with
    | «begin» header => exact hbegin hmessage.1.symm
    | chunk piece => exact hchunk hmessage.1.symm
    | cancel epoch transfer reason => exact hcancel hmessage.1.symm
  unfold takeDownAfter
  split
  · refine (codes_begin.bind fun header _ ↦ Codes.pure _).congr fun message bytes ↦ ⟨?_, ?_⟩
    · rintro ⟨header, -, -, ⟨hfits, hvalid, rfl⟩, ⟨rfl, rfl⟩, rfl⟩
      rw [append_nil]
      exact ⟨rfl, hfits, hvalid, rfl⟩
    · rintro ⟨htag, hfits, hvalid, rfl⟩
      cases message with
      | «begin» header =>
        exact ⟨header, _, [], ⟨hfits, hvalid, rfl⟩, ⟨rfl, rfl⟩, (append_nil _).symm⟩
      | _ => exact nomatch htag
  · refine (codes_chunk.bind fun piece _ ↦ Codes.pure _).congr fun message bytes ↦ ⟨?_, ?_⟩
    · rintro ⟨piece, -, -, ⟨hfits, hpiece, rfl⟩, ⟨rfl, rfl⟩, rfl⟩
      rw [append_nil]
      exact ⟨rfl, hfits, hpiece, rfl⟩
    · rintro ⟨htag, hfits, hpiece, rfl⟩
      cases message with
      | chunk piece =>
        exact ⟨piece, _, [], ⟨hfits, hpiece, rfl⟩, ⟨rfl, rfl⟩, (append_nil _).symm⟩
      | _ => exact nomatch htag
  · exact codes_cancel
  · exact hrefused _ (by decide) (by decide) (by decide)
  · exact hrefused _ (by decide) (by decide) (by decide)
  · next hbegin hchunk hcancel _ _ => exact hrefused _ hbegin hchunk hcancel

theorem codes_down : Codes (fun message bytes ↦ message.Fits ∧ encodeDown message = .ok bytes)
    (takeTransferTag >>= takeDownAfter) := by
  refine (codes_transferTag.bind fun tag _ ↦ codes_downAfter tag).congr
    fun message bytes ↦ ⟨?_, ?_⟩
  · rintro ⟨tag, -, -, ⟨-, rfl⟩, ⟨rfl, hfits, hmessage, rfl⟩, rfl⟩
    exact ⟨hfits, encodeDown_of_encodable hmessage⟩
  · rintro ⟨hfits, hencode⟩
    obtain ⟨hmessage, rfl⟩ := encodeDown_eq_ok_iff.mp hencode
    have htag : message.tag < 256 := by cases message <;> exact Nat.le_of_ble_eq_true rfl
    exact ⟨message.tag, _, _, ⟨htag, rfl⟩, ⟨rfl, hfits, hmessage, rfl⟩, rfl⟩

theorem readAll_transfer_nil {α : Type} (next : ℕ → WireReader α) :
    readAll (takeTransferTag >>= next) CodecError.malformed [] = .error .malformed := rfl

/-- The checks of a header after it is read have been made already. -/
theorem decodeDown_eq (bytes : List UInt8) : decodeDown bytes =
    if maxDownFrameBytes < bytes.length then .error .frameTooLarge
    else readAll (takeTransferTag >>= takeDownAfter) .malformed bytes := by
  unfold decodeDown
  split_ifs with hcap hempty
  · rfl
  · rw [hempty]
    rfl
  · cases hread : readAll (takeTransferTag >>= takeDownAfter) CodecError.malformed bytes with
    | error fault => rfl
    | ok message =>
      obtain ⟨shortest, ⟨-, hencode⟩, -⟩ := codes_down.readAll_sound hread
      have hmessage := (encodeDown_eq_ok_iff.mp hencode).1
      cases message with
      | «begin» header =>
        show (header.validate >>= _) = _
        rw [BeginTransfer.validate_eq_ok_iff.mpr hmessage]
        rfl
      | _ => rfl

theorem down_format :
    WireFormat TransferDown.Fits TransferDown.Encodable encodeDown decodeDown := by
  have hdecode : decodeDown = fun bytes ↦ if maxDownFrameBytes < bytes.length
      then .error .frameTooLarge
      else readAll (takeTransferTag >>= takeDownAfter) .malformed bytes := funext decodeDown_eq
  rw [hdecode]
  exact wireFormat_of_codes (fun _ _ ↦ encodeDown_eq_ok_iff)
    (fun _ hmessage ↦ length_putDown_le hmessage) encodeDown_ne_frameTooLarge codes_down

/-! ### Upstream messages -/

namespace TransferUp

/-- The fields of a message fit their types. -/
def Fits : TransferUp → Prop
  | .published _ transfer => (transfer : ℕ) < 2 ^ 64
  | .resync _ after _ => ∀ transfer ∈ after, (transfer : ℕ) < 2 ^ 64

def tag : TransferUp → ℕ
  | .published .. => transferTagPublished
  | .resync .. => transferTagResync

def putFields : TransferUp → List UInt8
  | .published epoch transfer => epoch.toList ++ putInt 64 transfer
  | .resync epoch after reason => epoch.toList ++
      (putInt 64 (after.elim 0 fun transfer ↦ (transfer : ℕ)) ++ putByte reason.asU8)

def put (message : TransferUp) : List UInt8 :=
  putTransferHeader message.tag ++ message.putFields

end TransferUp

theorem length_putUp_le (message : TransferUp) : message.put.length ≤ maxUpFrameBytes := by
  have hint (value : ℕ) : (putInt 64 value).length ≤ 10 := length_putInt_le 64 value
  have hfields : message.putFields.length ≤ 27 := by
    cases message with
    | published epoch transfer =>
      have htransfer := hint transfer
      simp only [TransferUp.putFields, length_append, Vector.length_toList]
      omega
    | resync epoch after reason =>
      have hafter := hint (after.elim 0 fun transfer ↦ (transfer : ℕ))
      simp only [TransferUp.putFields, putByte, length_append, length_singleton,
        Vector.length_toList]
      omega
  have hheader : (putTransferHeader message.tag).length = 3 := rfl
  rw [TransferUp.put, length_append, hheader]
  unfold maxUpFrameBytes maxIntentFrameBytes
  omega

theorem encodeUp_eq (message : TransferUp) : encodeUp message = .ok message.put := by
  have hcapped := capped_of_le (length_putUp_le message)
  cases message with
  | published epoch transfer => exact hcapped
  | resync epoch after reason =>
    rw [encodeUp, if_neg (by cases reason <;> decide)]
    exact hcapped

def CanonicalUp (tag : ℕ) (message : TransferUp) (bytes : List UInt8) : Prop :=
  message.tag = tag ∧ message.Fits ∧ bytes = message.putFields

/-- A raw id that may be zero is an id that may be missing. -/
theorem nonzero_elim (after : Option TransferId) :
    nonzero (after.elim 0 fun transfer ↦ (transfer : ℕ)) = after := by
  cases after with
  | none => rfl
  | some transfer =>
    rw [Option.elim_some, nonzero, dif_pos transfer.pos]
    exact congrArg some (PNat.eq rfl)

theorem elim_nonzero (raw : ℕ) : (nonzero raw).elim 0 (fun transfer ↦ (transfer : ℕ)) = raw := by
  unfold nonzero
  split_ifs with hraw
  · rfl
  · exact (Nat.eq_zero_of_not_pos hraw).symm

theorem codes_upAfter (tag : ℕ) : Codes (CanonicalUp tag) (takeUpAfter tag) := by
  have hrefused (fault : CodecError) (hpublished : tag ≠ transferTagPublished)
      (hresync : tag ≠ transferTagResync) :
      Codes (CanonicalUp tag) (throw fault : WireReader TransferUp) := by
    refine (Codes.throw _).congr fun message bytes ↦ ⟨fun hfalse ↦ hfalse.elim, fun hmessage ↦ ?_⟩
    cases message with
    | published epoch transfer => exact hpublished hmessage.1.symm
    | resync epoch after reason => exact hresync hmessage.1.symm
  unfold takeUpAfter
  split
  · refine (codes_epoch.bind fun epoch _ ↦ codes_netId.bind fun transfer _ ↦ Codes.pure _).congr
      fun message bytes ↦ ⟨?_, ?_⟩
    · rintro ⟨epoch, -, -, rfl, ⟨transfer, -, -, ⟨htransfer, rfl⟩, ⟨rfl, rfl⟩, rfl⟩, rfl⟩
      rw [append_nil]
      exact ⟨rfl, htransfer, rfl⟩
    · rintro ⟨htag, hfits, rfl⟩
      cases message with
      | published epoch transfer =>
        refine ⟨epoch, _, _, rfl, ⟨transfer, _, [], ⟨hfits, rfl⟩, ⟨rfl, rfl⟩, rfl⟩, ?_⟩
        rw [append_nil, TransferUp.putFields]
      | _ => exact nomatch htag
  · refine (codes_epoch.bind fun epoch _ ↦ codes_u64.bind fun after _ ↦ codes_u8.bind fun raw _ ↦
      (Codes.okOr _ (ResyncReason.fromU8 raw)).bind fun reason _ ↦ Codes.pure _).congr
      fun message bytes ↦ ⟨?_, ?_⟩
    · rintro ⟨epoch, -, -, rfl, ⟨after, -, -, ⟨hafter, rfl⟩, ⟨raw, -, -, ⟨-, rfl⟩,
        ⟨reason, -, -, ⟨hreason, rfl⟩, ⟨rfl, rfl⟩, rfl⟩, rfl⟩, rfl⟩, rfl⟩
      refine ⟨rfl, fun transfer hmem ↦ ?_, ?_⟩
      · have helim := elim_nonzero after
        rw [Option.mem_def.mp hmem] at helim
        exact helim.trans_lt hafter
      · rw [append_nil, append_nil, ResyncReason.fromU8_eq_some_iff.mp hreason,
          TransferUp.putFields, elim_nonzero]
    · rintro ⟨htag, hfits, rfl⟩
      cases message with
      | resync epoch after reason =>
        have hafter : (after.elim 0 fun transfer ↦ (transfer : ℕ)) < 2 ^ 64 := by
          cases after with
          | none => exact Nat.two_pow_pos 64
          | some transfer => exact hfits transfer rfl
        refine ⟨epoch, _, _, rfl, ⟨_, _, _, ⟨hafter, rfl⟩, ⟨reason.asU8, _, [],
          ⟨by cases reason <;> decide, rfl⟩, ⟨reason, [], [],
          ⟨ResyncReason.fromU8_eq_some_iff.mpr rfl, rfl⟩, ⟨?_, rfl⟩, rfl⟩, rfl⟩, rfl⟩, ?_⟩
        · rw [nonzero_elim]
        · rw [append_nil, TransferUp.putFields]
      | _ => exact nomatch htag
  · exact hrefused _ (by decide) (by decide)
  · exact hrefused _ (by decide) (by decide)
  · exact hrefused _ (by decide) (by decide)
  · next hpublished hresync _ _ _ => exact hrefused _ hpublished hresync

theorem codes_up : Codes (fun message bytes ↦ message.Fits ∧ encodeUp message = .ok bytes)
    (takeTransferTag >>= takeUpAfter) := by
  refine (codes_transferTag.bind fun tag _ ↦ codes_upAfter tag).congr fun message bytes ↦ ⟨?_, ?_⟩
  · rintro ⟨tag, -, -, ⟨-, rfl⟩, ⟨rfl, hfits, rfl⟩, rfl⟩
    exact ⟨hfits, encodeUp_eq message⟩
  · rintro ⟨hfits, hencode⟩
    rw [encodeUp_eq, Except.ok.injEq] at hencode
    have htag : message.tag < 256 := by cases message <;> exact Nat.le_of_ble_eq_true rfl
    exact ⟨message.tag, _, _, ⟨htag, rfl⟩, ⟨rfl, hfits, rfl⟩, hencode.symm⟩

theorem up_format : WireFormat TransferUp.Fits (fun _ ↦ True) encodeUp decodeUp := by
  have hencode (message : TransferUp) (bytes : List UInt8) :
      encodeUp message = .ok bytes ↔ True ∧ bytes = message.put := by
    rw [encodeUp_eq, Except.ok.injEq, true_and]
    exact eq_comm
  have hdecode : decodeUp = fun bytes ↦ if maxUpFrameBytes < bytes.length
      then .error .frameTooLarge
      else readAll (takeTransferTag >>= takeUpAfter) .malformed bytes := by
    funext bytes
    unfold decodeUp
    split_ifs with hcap hempty
    · rfl
    · rw [hempty, readAll_transfer_nil]
    · rfl
  rw [hdecode]
  exact wireFormat_of_codes hencode (fun message _ ↦ length_putUp_le message)
    (fun message ↦ by rw [encodeUp_eq]; exact nofun) codes_up

/-! ### Plans -/

def chunkPayload (chunkSize : ℕ) (bytes : List UInt8) (index : ℕ) : List UInt8 :=
  (bytes.drop (index * chunkSize)).take chunkSize

theorem take_drop_eq_chunkPayload (chunkSize : ℕ) (bytes : List UInt8) (index : ℕ) :
    (bytes.take (min ((index + 1) * chunkSize) bytes.length)).drop (index * chunkSize) =
      chunkPayload chunkSize bytes index := by
  have htake : bytes.take (min ((index + 1) * chunkSize) bytes.length) =
      bytes.take ((index + 1) * chunkSize) := by
    rw [← List.take_take, List.take_length]
  have hsize : (index + 1) * chunkSize - index * chunkSize = chunkSize := by
    rw [Nat.succ_mul, Nat.add_sub_cancel_left]
  rw [htake, List.drop_take, hsize, chunkPayload]

/-- The payloads from an index on make up the rest of the bytes. Assumes: they cover it. -/
theorem flatten_chunkPayload (chunkSize : ℕ) (bytes : List UInt8) (index count : ℕ)
    (hcover : bytes.length ≤ (index + count) * chunkSize) :
    ((List.range' index count).map (chunkPayload chunkSize bytes)).flatten =
      bytes.drop (index * chunkSize) := by
  induction count generalizing index with
  | zero =>
    rw [Nat.add_zero] at hcover
    exact (List.drop_of_length_le hcover).symm
  | succ count ih =>
    have hcover' : bytes.length ≤ (index + 1 + count) * chunkSize := by
      rwa [Nat.add_right_comm, Nat.add_assoc]
    rw [List.range'_succ, map_cons, flatten_cons, ih (index + 1) hcover', chunkPayload,
      Nat.succ_mul, ← List.drop_drop, List.take_append_drop]

theorem planChunks_eq {epoch : SessionEpoch} {transfer : TransferId} {chunkSize : ℕ}
    (index count : ℕ) (hencodable : ∀ place ∈ List.range' index count,
      (⟨epoch, transfer, place, chunkPayload chunkSize bytes place⟩ : TransferChunk).Encodable) :
    planChunks epoch transfer chunkSize bytes index count =
      .ok ((List.range' index count).map fun place ↦
        (TransferDown.chunk ⟨epoch, transfer, place, chunkPayload chunkSize bytes place⟩).put) := by
  induction count generalizing index with
  | zero => rfl
  | succ count ih =>
    rw [List.range'_succ] at hencodable ⊢
    obtain ⟨hfirst, hrest⟩ := List.forall_mem_cons.mp hencodable
    have hnarrow : index % 2 ^ 8 = index := Nat.mod_eq_of_lt (hfirst.index.trans (by decide))
    have hmessage : (TransferDown.chunk
        ⟨epoch, transfer, index, chunkPayload chunkSize bytes index⟩).Encodable := hfirst
    rw [planChunks, hnarrow, take_drop_eq_chunkPayload, encodeDown_of_encodable hmessage,
      ih (index + 1) hrest]
    rfl

def planHeader (epoch : SessionEpoch) (transfer : TransferId) (baseTick cursor : ℕ)
    (segmentsPerChunk : ℕ) (body : SnapshotBody) (bytes : List UInt8) : BeginTransfer where
  epoch := epoch
  transfer := transfer
  baseTick := baseTick
  cursor := cursor
  totalBytes := bytes.length
  entityCount := body.entities.length
  segmentsPerChunk := segmentsPerChunk
  chunkCount := (bytes.length + (segmentsPerChunk * maxSegmentBytes - 1)) /
    (segmentsPerChunk * maxSegmentBytes)

section Plan

variable {epoch : SessionEpoch} {transfer : TransferId} {baseTick cursor segmentsPerChunk : ℕ}
  {body : SnapshotBody} {bytes : List UInt8}

theorem valid_planHeader (hbody : encodeBody body = .ok bytes) (hcursor : cursor ≤ seqLast)
    (hlow : 1 ≤ segmentsPerChunk) (hhigh : segmentsPerChunk ≤ maxSegmentsPerChunk) :
    (planHeader epoch transfer baseTick cursor segmentsPerChunk body bytes).Valid := by
  obtain ⟨hencodable, rfl⟩ := encodeBody_eq_ok_iff.mp hbody
  have hlength := length_putBody_le hencodable.count
  have hpos : 1 ≤ (putBody body).length := by
    have hturn : 1 ≤ (putOption putTurn body.turn).length := by
      cases body.turn with
      | none => exact Nat.le_of_ble_eq_true rfl
      | some fact =>
        simp only [putOption, putBool, length_append, length_singleton]
        omega
    rw [putBody, length_append, length_append]
    omega
  have hsize : maxSegmentBytes ≤ segmentsPerChunk * maxSegmentBytes :=
    Nat.le_mul_of_pos_left _ hlow
  unfold maxEncodedBodyBytes at hlength
  have hchunks : ((putBody body).length + (segmentsPerChunk * maxSegmentBytes - 1)) /
      (segmentsPerChunk * maxSegmentBytes) ≤ maxSnapshotChunks := by
    unfold maxSegmentBytes at hsize ⊢
    unfold maxSnapshotChunks
    refine Nat.le_of_lt_succ ((Nat.div_lt_iff_lt_mul (by omega)).mpr ?_)
    omega
  have hsome : ((putBody body).length + (segmentsPerChunk * maxSegmentBytes - 1)) /
      (segmentsPerChunk * maxSegmentBytes) ≠ 0 := by
    unfold maxSegmentBytes at hsize ⊢
    exact (Nat.div_pos (by omega) (by omega)).ne'
  refine ⟨hcursor, Nat.one_le_iff_ne_zero.mp hpos, hlength.trans (by decide), hencodable.count,
    Nat.one_le_iff_ne_zero.mp hlow, hhigh, hsome, hchunks, rfl⟩

theorem planTransfer_eq (hbody : encodeBody body = .ok bytes) (hcursor : cursor ≤ seqLast)
    (hlow : 1 ≤ segmentsPerChunk) (hhigh : segmentsPerChunk ≤ maxSegmentsPerChunk)
    (hencodable : ∀ place ∈ List.range'
        0 (planHeader epoch transfer baseTick cursor segmentsPerChunk body bytes).chunkCount,
      (⟨epoch, transfer, place, chunkPayload (segmentsPerChunk * maxSegmentBytes) bytes place⟩ :
        TransferChunk).Encodable) :
    planTransfer epoch transfer baseTick cursor segmentsPerChunk body = .ok ((TransferDown.begin
          (planHeader epoch transfer baseTick cursor segmentsPerChunk body bytes)).put ::
        (List.range' 0 (planHeader epoch transfer baseTick cursor segmentsPerChunk body
          bytes).chunkCount).map fun place ↦ (TransferDown.chunk ⟨epoch, transfer, place,
            chunkPayload (segmentsPerChunk * maxSegmentBytes) bytes place⟩).put) := by
  have hvalid := @valid_planHeader epoch transfer baseTick _ _ _ _ hbody hcursor hlow hhigh
  have hheader : (⟨epoch, transfer, baseTick, cursor, bytes.length % 2 ^ 32,
      body.entities.length % 2 ^ 16, segmentsPerChunk, (planHeader epoch transfer baseTick cursor
        segmentsPerChunk body bytes).chunkCount % 2 ^ 8⟩ : BeginTransfer) =
      planHeader epoch transfer baseTick cursor segmentsPerChunk body bytes := by
    have htotal : bytes.length < 2 ^ 32 := hvalid.total_le.trans_lt (by decide)
    have hcount : body.entities.length < 2 ^ 16 := hvalid.entities_le.trans_lt (by decide)
    have hchunks : (planHeader epoch transfer baseTick cursor segmentsPerChunk body
        bytes).chunkCount < 2 ^ 8 := hvalid.chunks_le.trans_lt (by decide)
    rw [Nat.mod_eq_of_lt htotal, Nat.mod_eq_of_lt hcount, Nat.mod_eq_of_lt hchunks]
    rfl
  have hbegin : (TransferDown.begin
      (planHeader epoch transfer baseTick cursor segmentsPerChunk body bytes)).Encodable := hvalid
  rw [planTransfer, if_neg (not_lt.mpr hcursor), if_neg (Nat.one_le_iff_ne_zero.mp hlow),
    if_neg (not_lt.mpr hhigh), hbody]
  show (if maxSnapshotChunks < (planHeader epoch transfer baseTick cursor segmentsPerChunk body
    bytes).chunkCount then _ else _) = _
  rw [if_neg (not_lt.mpr hvalid.chunks_le)]
  show (BeginTransfer.validate ⟨epoch, transfer, baseTick, cursor, bytes.length % 2 ^ 32,
    body.entities.length % 2 ^ 16, segmentsPerChunk, (planHeader epoch transfer baseTick cursor
      segmentsPerChunk body bytes).chunkCount % 2 ^ 8⟩ >>= fun _ ↦ encodeDown (.begin ⟨epoch,
    transfer, baseTick, cursor, bytes.length % 2 ^ 32, body.entities.length % 2 ^ 16,
    segmentsPerChunk, (planHeader epoch transfer baseTick cursor segmentsPerChunk body
      bytes).chunkCount % 2 ^ 8⟩) >>= fun first ↦ planChunks epoch transfer
    (segmentsPerChunk * maxSegmentBytes) bytes 0 (planHeader epoch transfer baseTick cursor
      segmentsPerChunk body bytes).chunkCount >>= fun rest ↦ .ok (first :: rest)) = _
  rw [hheader, BeginTransfer.validate_eq_ok_iff.mpr hvalid, encodeDown_of_encodable hbegin,
    planChunks_eq 0 _ hencodable]
  rfl

variable {index : ℕ}

theorem start_lt_of_lt_chunkCount (hlow : 1 ≤ segmentsPerChunk)
    (hindex : index < (planHeader epoch transfer baseTick cursor segmentsPerChunk body
      bytes).chunkCount) : index * (segmentsPerChunk * maxSegmentBytes) < bytes.length := by
  have hpos : 0 < segmentsPerChunk * maxSegmentBytes := Nat.mul_pos hlow (by decide)
  have hstart := (Nat.le_div_iff_mul_le hpos).mp (Nat.succ_le_of_lt hindex)
  rw [Nat.succ_mul] at hstart
  omega

theorem length_le_chunkCount_mul (hlow : 1 ≤ segmentsPerChunk) : bytes.length ≤
    (planHeader epoch transfer baseTick cursor segmentsPerChunk body bytes).chunkCount *
      (segmentsPerChunk * maxSegmentBytes) := by
  have hpos : 0 < segmentsPerChunk * maxSegmentBytes := Nat.mul_pos hlow (by decide)
  have hmod := Nat.mod_lt (bytes.length + (segmentsPerChunk * maxSegmentBytes - 1)) hpos
  have hdiv := Nat.div_add_mod' (bytes.length + (segmentsPerChunk * maxSegmentBytes - 1))
    (segmentsPerChunk * maxSegmentBytes)
  show bytes.length ≤ (bytes.length + (segmentsPerChunk * maxSegmentBytes - 1)) /
    (segmentsPerChunk * maxSegmentBytes) * (segmentsPerChunk * maxSegmentBytes)
  omega

theorem length_chunkPayload (chunkSize index : ℕ) : (chunkPayload chunkSize bytes index).length =
      min chunkSize (bytes.length - index * chunkSize) := by
  rw [chunkPayload, List.length_take, length_drop]

theorem encodable_chunk
    (hvalid : (planHeader epoch transfer baseTick cursor segmentsPerChunk body bytes).Valid)
    (hlow : 1 ≤ segmentsPerChunk)
    (hindex : index < (planHeader epoch transfer baseTick cursor segmentsPerChunk body
      bytes).chunkCount) :
    (⟨epoch, transfer, index, chunkPayload (segmentsPerChunk * maxSegmentBytes) bytes index⟩ :
      TransferChunk).Encodable := by
  have hstart := start_lt_of_lt_chunkCount hlow hindex
  have hlength := @length_chunkPayload bytes (segmentsPerChunk * maxSegmentBytes) index
  have hsize : segmentsPerChunk * maxSegmentBytes ≤ maxChunkBytes :=
    (Nat.mul_le_mul_right maxSegmentBytes hvalid.segments_le).trans (by decide)
  have hpos : 0 < segmentsPerChunk * maxSegmentBytes := Nat.mul_pos hlow (by decide)
  refine ⟨hindex.trans_le hvalid.chunks_le, fun hnil ↦ ?_, ?_⟩
  · rw [List.length_eq_zero_iff.mpr hnil] at hlength
    omega
  · exact (hlength.trans_le (min_le_left _ _)).trans hsize

theorem chunkLen_planHeader
    (hvalid : (planHeader epoch transfer baseTick cursor segmentsPerChunk body bytes).Valid)
    (hlow : 1 ≤ segmentsPerChunk)
    (hindex : index < (planHeader epoch transfer baseTick cursor segmentsPerChunk body
      bytes).chunkCount) :
    (planHeader epoch transfer baseTick cursor segmentsPerChunk body bytes).chunkLen index =
      some (chunkPayload (segmentsPerChunk * maxSegmentBytes) bytes index).length := by
  have hstart := start_lt_of_lt_chunkCount hlow hindex
  have hsuccessor : (index + 1) * (segmentsPerChunk * maxSegmentBytes) =
      index * (segmentsPerChunk * maxSegmentBytes) + segmentsPerChunk * maxSegmentBytes :=
    Nat.succ_mul _ _
  rw [BeginTransfer.chunkLen, if_neg (not_le.mpr hindex),
    BeginTransfer.validate_eq_ok_iff.mpr hvalid]
  show (if bytes.length ≤ index * (segmentsPerChunk * maxSegmentBytes) then none else
    some (min ((index + 1) * (segmentsPerChunk * maxSegmentBytes)) bytes.length -
      index * (segmentsPerChunk * maxSegmentBytes))) = _
  rw [if_neg (not_le.mpr hstart), length_chunkPayload, hsuccessor]
  congr 1
  omega

end Plan

/-- What the frames of a transfer are: one valid header for the bytes of the body and the chunks
that it announces, which decode one by one and make up the bytes. -/
structure PlannedTransfer (epoch : SessionEpoch) (transfer : TransferId)
    (baseTick cursor segmentsPerChunk : ℕ) (body : SnapshotBody) (bytes : List UInt8)
    (header : BeginTransfer) (payloads frames : List (List UInt8)) : Prop where
  valid : header.validate = .ok ()
  epoch_eq : header.epoch = epoch
  transfer_eq : header.transfer = transfer
  baseTick_eq : header.baseTick = baseTick
  cursor_eq : header.cursor = cursor
  segmentsPerChunk_eq : header.segmentsPerChunk = segmentsPerChunk
  totalBytes : header.totalBytes = bytes.length
  entityCount : header.entityCount = body.entities.length
  chunkCount : header.chunkCount = payloads.length
  count : payloads.length = (bytes.length + (header.chunkSize - 1)) / header.chunkSize
  decodes : frames.map decodeDown = .ok (.begin header) ::
    payloads.mapIdx fun index payload ↦ .ok (.chunk ⟨epoch, transfer, index, payload⟩)
  lengths : ∀ index payload, payloads[index]? = some payload →
    header.chunkLen index = some payload.length
  flatten : payloads.flatten = bytes

/-- The transfer of a body: its encoding is bounded, the plan is one valid header and the chunks it
announces, every frame decodes to its message, the chunks have the lengths of the header, and their
payloads make up a body that decodes to the first one, with the number of rows of the header. Each
decoder accepts only what its encoder takes and encodes to bytes that decode to the same value. -/
theorem transfer_format (epoch : SessionEpoch) (transfer : TransferId)
    (baseTick cursor segmentsPerChunk : ℕ) (body : SnapshotBody) (bytes : List UInt8)
    (hfits : body.Fits) (htransfer : (transfer : ℕ) < 2 ^ 64) (htick : baseTick < 2 ^ 64)
    (hbody : encodeBody body = .ok bytes) (hcursor : cursor ≤ seqLast)
    (hlow : 1 ≤ segmentsPerChunk) (hhigh : segmentsPerChunk ≤ maxSegmentsPerChunk) :
    (bytes.length ≤ maxEncodedBodyBytes ∧ ∃ header payloads frames,
      planTransfer epoch transfer baseTick cursor segmentsPerChunk body = .ok frames ∧
        PlannedTransfer epoch transfer baseTick cursor segmentsPerChunk body bytes header payloads
          frames ∧ decodeBody payloads.flatten = .ok body) ∧
    WireFormat SnapshotBody.Fits SnapshotBody.Encodable encodeBody decodeBody ∧
    WireFormat TransferDown.Fits TransferDown.Encodable encodeDown decodeDown ∧
    WireFormat TransferUp.Fits (fun _ ↦ True) encodeUp decodeUp := by
  refine ⟨⟨?_, ?_⟩, body_format, down_format, up_format⟩
  · obtain ⟨hencodable, rfl⟩ := encodeBody_eq_ok_iff.mp hbody
    exact length_putBody_le hencodable.count
  have hvalid := @valid_planHeader epoch transfer baseTick _ _ _ _ hbody hcursor hlow hhigh
  have hchunk {index : ℕ} (hindex : index < (planHeader epoch transfer baseTick cursor
      segmentsPerChunk body bytes).chunkCount) := encodable_chunk hvalid hlow hindex
  have hflatten : ((List.range' 0 (planHeader epoch transfer baseTick cursor segmentsPerChunk body
      bytes).chunkCount).map (chunkPayload (segmentsPerChunk * maxSegmentBytes) bytes)).flatten =
      bytes := by
    rw [flatten_chunkPayload, Nat.zero_mul, List.drop_zero]
    rw [Nat.zero_add]
    exact length_le_chunkCount_mul hlow
  refine ⟨planHeader epoch transfer baseTick cursor segmentsPerChunk body bytes,
    (List.range' 0 (planHeader epoch transfer baseTick cursor segmentsPerChunk body
      bytes).chunkCount).map (chunkPayload (segmentsPerChunk * maxSegmentBytes) bytes), _,
    planTransfer_eq hbody hcursor hlow hhigh fun place hplace ↦ hchunk ?_,
    ⟨BeginTransfer.validate_eq_ok_iff.mpr hvalid, rfl, rfl, rfl, rfl, rfl, rfl, rfl, ?_, ?_, ?_,
      ?_, hflatten⟩, ?_⟩
  · simpa using hplace
  · rw [length_map, length_range']
  · rw [length_map, length_range']
    rfl
  · have hbegin : decodeDown (TransferDown.begin (planHeader epoch transfer baseTick cursor
        segmentsPerChunk body bytes)).put = .ok (.begin (planHeader epoch transfer baseTick cursor
        segmentsPerChunk body bytes)) :=
      down_format.round_trip _ _ ⟨htransfer, htick⟩ (encodeDown_of_encodable hvalid)
    rw [map_cons, hbegin, List.map_map]
    congr 1
    apply List.ext_getElem
    · rw [length_map, List.length_mapIdx, length_map]
    · intro index hleft hright
      rw [length_map, length_range'] at hleft
      simp only [List.getElem_map, List.getElem_mapIdx, List.getElem_range', Function.comp_apply,
        Nat.zero_add, Nat.one_mul]
      exact down_format.round_trip _ _ htransfer (encodeDown_of_encodable (hchunk hleft))
  · intro index payload hpayload
    rw [List.getElem?_map, Option.map_eq_some_iff] at hpayload
    obtain ⟨place, hplace, rfl⟩ := hpayload
    obtain ⟨hindex, hvalue⟩ := List.getElem?_eq_some_iff.mp hplace
    rw [List.getElem_range', Nat.zero_add, Nat.one_mul] at hvalue
    rw [length_range'] at hindex
    rw [← hvalue]
    exact chunkLen_planHeader hvalid hlow hindex
  · rw [hflatten]
    exact body_format.round_trip body bytes hfits hbody

/-- A snapshot of many wounded entities, at the turn of the last. -/
def crowdBody : SnapshotBody :=
  ⟨(List.range 320).map fun place ↦ ⟨place.succPNat, some ⟨2 ^ 31, 2 ^ 32 - 1, false⟩⟩,
    some ⟨some 320, 3⟩⟩

/-- It takes two chunks, the second one short. -/
theorem crowdBody_format : ∃ header payloads frames,
    planTransfer (Vector.replicate 16 0) 1 5 4 1 crowdBody = .ok frames ∧
      PlannedTransfer (Vector.replicate 16 0) 1 5 4 1 crowdBody (putBody crowdBody) header payloads
        frames ∧ payloads.map List.length = [4096, 264] ∧
      decodeBody payloads.flatten = .ok crowdBody := by
  have hencodable : crowdBody.Encodable := by
    refine ⟨by simp [crowdBody, maxVisibleEntities], ?_, fun fact hfact id hid ↦ ?_⟩
    · rw [crowdBody, List.map_map]
      exact List.pairwise_map.mpr (List.pairwise_lt_range.imp Nat.succ_lt_succ)
    · cases hfact
      cases hid
      exact ⟨_, List.mem_map.mpr ⟨319, by decide, rfl⟩, rfl⟩
  have hfits : crowdBody.Fits := by
    refine ⟨fun row hrow ↦ ?_, by simp [crowdBody, TurnFact.Fits]⟩
    obtain ⟨place, hplace, rfl⟩ := List.mem_map.mp hrow
    have hbound := List.mem_range.mp hplace
    exact ⟨by rw [Nat.succPNat_coe]; omega, by simp [HealthFact.Fits]⟩
  obtain ⟨header, payloads, frames, hplan, hplanned, hdecode⟩ :=
    (transfer_format (Vector.replicate 16 0) 1 5 4 1 crowdBody _ hfits (by decide) (by decide)
      (encodeBody_eq_ok_iff.mpr ⟨hencodable, rfl⟩) (by decide) (by decide) (by decide)).1.2
  refine ⟨header, payloads, frames, hplan, hplanned, ?_, hdecode⟩
  have hlength : (putBody crowdBody).length = 4360 := by decide +kernel
  have hsize : header.chunkSize = 4096 := by
    rw [BeginTransfer.chunkSize, hplanned.segmentsPerChunk_eq]
    rfl
  have hcount : payloads.length = 2 := by rw [hplanned.count, hlength, hsize]
  obtain ⟨full, short, rfl⟩ := List.length_eq_two.mp hcount
  have hchunk (index : ℕ) (hindex : index < header.chunkCount) : header.chunkLen index =
      some (min ((index + 1) * 4096) 4360 - index * 4096) := by
    unfold BeginTransfer.chunkLen
    rw [if_neg (not_le.mpr hindex), hplanned.valid, hplanned.totalBytes, hlength, hsize]
    exact if_neg (by rw [hplanned.chunkCount, hcount] at hindex; omega)
  have hfull := hplanned.lengths 0 full rfl
  have hshort := hplanned.lengths 1 short rfl
  rw [hchunk _ (by rw [hplanned.chunkCount, hcount]; decide), Option.some.injEq] at hfull hshort
  rw [List.map_cons, List.map_cons, ← hfull, ← hshort]
  rfl

end Crpg.Net
