import Crpg.Net.CodecResume

/-!
# Resume frames round-trip

The resume decoders take exactly the byte strings of valid messages, in every form of their
integers, and the encoders write the shortest. No byte string belongs to two of the wire
vocabularies, since the first byte of each is its version.
-/

set_option autoImplicit false

namespace Crpg.Net

open Crpg.Core Crpg.Lib
open List (append_cancel_left append_nil length_append length_singleton map_id map_map)

/-! ### The bytes of a message -/

/-- An integer in its shortest form. -/
def Shortest (value : ℕ) (bytes : List UInt8) : Prop := bytes = putInt 64 value

def LaneWritten (integers : ℕ → List UInt8 → Prop) (entry : ℕ × ℕ) (bytes : List UInt8) : Prop :=
  ∃ through, integers entry.2 through ∧ bytes = putByte entry.1 ++ through

def LanesWritten (integers : ℕ → List UInt8 → Prop) (entries : List (ℕ × ℕ))
    (bytes : List UInt8) : Prop :=
  ∃ body, CanonicalList (LaneWritten integers) entries body ∧
    bytes = putByte entries.length ++ body

def ResumeRequest.Written (integers : ℕ → List UInt8 → Prop) (request : ResumeRequest)
    (bytes : List UInt8) : Prop :=
  ∃ fence lanes, integers request.fence fence ∧
    LanesWritten integers (request.claims.map LaneClaim.entry) lanes ∧
    bytes = putResumeHeader resumeTagRequest ++ (request.epoch.toList ++ (fence ++
      (putProof request.proof ++ lanes)))

def ResumeAccepted.Written (integers : ℕ → List UInt8 → Prop) (answer : ResumeAccepted)
    (bytes : List UInt8) : Prop :=
  ∃ granted lanes, integers answer.granted granted ∧
    LanesWritten integers (answer.progress.map LaneProgress.entry) lanes ∧
    bytes = putResumeHeader resumeTagAccepted ++ (answer.epoch.toList ++ (granted ++ lanes))

namespace ResumeDown

/-- The bytes of a downstream frame. -/
def Written (integers : ℕ → List UInt8 → Prop) (message : ResumeDown) (bytes : List UInt8) : Prop :=
  match message with
  | .ticket issued => bytes = putResumeHeader resumeTagTicket ++ (issued.epoch.toList ++
      putProof issued.proof)
  | .answer (.accepted accepted) => accepted.Written integers bytes
  | .answer (.rejected rejected) => bytes = putResumeHeader resumeTagRejected ++
      (rejected.epoch.toList ++ putByte rejected.reason.asU8)

/-- The check of a downstream frame: an answer validates itself, and a ticket has no rule beyond
those of its proof. -/
def validate : ResumeDown → Except CodecError Unit
  | .ticket _ => .ok ()
  | .answer result => result.validate

/-- The rules hold of the frame. -/
def Valid (message : ResumeDown) : Prop := message.validate = .ok ()

end ResumeDown

theorem Shortest.length_le (value : ℕ) (form : List UInt8) (hform : Shortest value form) :
    form.length ≤ 10 := by
  rw [hform]
  exact length_putInt_le 64 value

/-! ### Lane lists -/

variable {bytes : List UInt8} {entries : List (ℕ × ℕ)}

theorem laneWritten_shortest_iff {entry : ℕ × ℕ} :
    LaneWritten Shortest entry bytes ↔ bytes = putLane entry := by
  constructor
  · rintro ⟨-, rfl, rfl⟩
    rfl
  · rintro rfl
    exact ⟨_, rfl, rfl⟩

theorem lanesWritten_shortest_iff :
    LanesWritten Shortest entries bytes ↔ bytes = putLanes entries := by
  have hwritten : LaneWritten Shortest = fun entry bytes ↦ bytes = putLane entry := by
    ext entry bytes
    exact laneWritten_shortest_iff
  rw [LanesWritten, hwritten]
  simp only [canonicalList_put_iff, exists_eq_left, putLanes]

/-- Entries that pass the loop of the rules fit the wire. -/
theorem entry_of_checkLaneEntries {previous : Option ℕ}
    (hok : checkLaneEntries previous entries = .ok ()) :
    ∀ entry ∈ entries, entry.1 < 256 ∧ entry.2 < 2 ^ 64 := by
  induction entries generalizing previous with
  | nil => exact fun _ hmem ↦ absurd hmem List.not_mem_nil
  | cons entry rest ih =>
    unfold checkLaneEntries at hok
    split_ifs at hok with hlane hprevious hthrough
    rw [List.forall_mem_cons]
    refine ⟨⟨?_, ?_⟩, ih hok⟩
    · rw [not_not.mp hlane]
      decide
    · have hlast : seqLast = 18446744073709551614 := rfl
      omega

theorem checkLanes_eq_ok_iff :
    checkLanes entries = .ok () ↔ entries.length ≠ 0 ∧ entries.length ≤ maxResumeLanes ∧
      checkLaneEntries none entries = .ok () := by
  unfold checkLanes
  split_ifs with hnone hmany
  · simp [hnone]
  · simp [hmany]
  · simp [hnone, not_lt.mp hmany]

theorem checkLanes_ne_frameTooLarge (entries : List (ℕ × ℕ)) :
    checkLanes entries ≠ .error .frameTooLarge := by
  have hloop (previous : Option ℕ) : checkLaneEntries previous entries ≠ .error .frameTooLarge := by
    induction entries generalizing previous with
    | nil => exact nofun
    | cons entry rest ih =>
      unfold checkLaneEntries
      split_ifs
      · exact nofun
      · exact nofun
      · exact nofun
      · exact ih _
  unfold checkLanes
  split_ifs
  · exact nofun
  · exact nofun
  · exact hloop none

theorem LanesWritten.imp {first second : ℕ → List UInt8 → Prop}
    (hwritten : LanesWritten first entries bytes)
    (himp : ∀ entry ∈ entries, ∀ bytes, first entry.2 bytes → second entry.2 bytes) :
    LanesWritten second entries bytes := by
  obtain ⟨body, hbody, rfl⟩ := hwritten
  refine ⟨body, hbody.imp fun entry hmem bytes ↦ ?_, rfl⟩
  rintro ⟨through, hthrough, rfl⟩
  exact ⟨through, himp entry hmem through hthrough, rfl⟩

/-- A lane list is shortest when its integers are. -/
theorem LanesWritten.length_putLanes_le (hwritten : LanesWritten (VarintForm 64) entries bytes) :
    (putLanes entries).length ≤ bytes.length := by
  obtain ⟨body, hbody, rfl⟩ := hwritten
  have hshort : ∀ entry form, LaneWritten (VarintForm 64) entry form →
      ∃ shortest, LaneWritten Shortest entry shortest ∧ shortest.length ≤ form.length := by
    rintro entry - ⟨through, hthrough, rfl⟩
    refine ⟨_, ⟨_, rfl, rfl⟩, ?_⟩
    rw [length_append, length_append]
    exact Nat.add_le_add_left hthrough.length_le _
  obtain ⟨shortest, hshortest, hlength⟩ := hbody.shorten hshort
  have hput := lanesWritten_shortest_iff.mp ⟨shortest, hshortest, rfl⟩
  rw [← hput, length_append, length_append]
  exact Nat.add_le_add_left hlength _

theorem LanesWritten.length_le {integers : ℕ → List UInt8 → Prop}
    (hintegers : ∀ value form, integers value form → form.length ≤ 10)
    (hwritten : LanesWritten integers entries bytes) (hcount : entries.length ≤ maxResumeLanes) :
    bytes.length ≤ 45 := by
  obtain ⟨body, hbody, rfl⟩ := hwritten
  have hlength : body.length ≤ entries.length * 11 := by
    apply hbody.length_le
    rintro entry - ⟨through, hthrough, rfl⟩
    have hmax := hintegers _ _ hthrough
    rw [length_append, putByte, length_singleton]
    omega
  have hlanes : maxResumeLanes = 4 := rfl
  rw [length_append, putByte, length_singleton]
  omega

/-! ### Readers -/

theorem reads_u8 : Reads (fun value bytes ↦ value < 256 ∧ bytes = putByte value) takeU8 :=
  reads_byte _

theorem reads_u64 : Reads (VarintForm 64) takeU64 := reads_varint _ 64

theorem reads_epoch : Reads (fun epoch bytes ↦ bytes = epoch.toList) takeEpoch := reads_array _ 16

theorem ConnectionFence.new_eq_some_iff {raw : ℕ} {fence : ConnectionFence} :
    ConnectionFence.new raw = some fence ↔ raw = (fence : ℕ) := nonzero_eq_some_iff

theorem reads_fence :
    Reads (fun (fence : ConnectionFence) bytes ↦ VarintForm 64 fence bytes) takeFence := by
  refine (reads_u64.bind fun raw _ ↦ Reads.okOr _ _).congr fun fence bytes ↦ ⟨?_, fun hform ↦ ?_⟩
  · rintro ⟨raw, front, -, hform, ⟨hfence, rfl⟩, rfl⟩
    rw [ConnectionFence.new_eq_some_iff] at hfence
    rw [append_nil, ← hfence]
    exact hform
  · exact ⟨fence, bytes, [], hform, ⟨ConnectionFence.new_eq_some_iff.mpr rfl, rfl⟩,
      (append_nil bytes).symm⟩

theorem ResumeProof.new_eq_ok_iff {proof : ResumeProof} :
    ResumeProof.new bytes = .ok proof ↔ bytes = proof.bytes := by
  constructor
  · intro hnew
    unfold ResumeProof.new at hnew
    split_ifs at hnew
    cases hnew
    rfl
  · rintro rfl
    unfold ResumeProof.new
    rw [dif_neg (not_lt.mpr proof.long), dif_neg (not_lt.mpr proof.short)]

theorem reads_proof : Reads (fun proof bytes ↦ bytes = putProof proof) takeProof := by
  refine (reads_u8.bind fun length _ ↦ (((reads_raw _ length).bind fun bytes _ ↦
    Reads.lift (ResumeProof.new bytes)).guard CodecError.limitExceeded
      (maxResumeProofBytes < length)).guard .malformed (length < minResumeProofBytes)).congr
    fun proof bytes ↦ ⟨?_, ?_⟩
  · rintro ⟨length, front, back, ⟨-, rfl⟩, ⟨-, -, body, raw, rest, ⟨rfl, rfl⟩, ⟨hproof, rfl⟩, rfl⟩,
      rfl⟩
    rw [ResumeProof.new_eq_ok_iff] at hproof
    rw [append_nil, hproof, putProof]
  · rintro rfl
    have hbyte : proof.bytes.length < 256 := by
      have hshort := proof.short
      have hmax : maxResumeProofBytes = 128 := rfl
      omega
    exact ⟨proof.bytes.length, _, _, ⟨hbyte, rfl⟩, ⟨not_lt.mpr proof.long, not_lt.mpr proof.short,
      proof.bytes, _, [], ⟨rfl, rfl⟩, ⟨ResumeProof.new_eq_ok_iff.mpr rfl, rfl⟩,
      (append_nil _).symm⟩, rfl⟩

/-- The loop over the entries that are left takes the lists the rules' own loop accepts. -/
theorem reads_laneEntries (count : ℕ) (previous : Option ℕ) :
    Reads (fun entries bytes ↦ entries.length = count ∧ checkLaneEntries previous entries = .ok () ∧
      CanonicalList (LaneWritten (VarintForm 64)) entries bytes)
      (takeLaneEntries count previous) := by
  induction count generalizing previous with
  | zero =>
    refine (Reads.pure []).congr fun entries bytes ↦ ⟨?_, ?_⟩
    · rintro ⟨rfl, rfl⟩
      exact ⟨rfl, rfl, .nil⟩
    · rintro ⟨hlength, -, hentries⟩
      cases hentries with
      | nil => exact ⟨rfl, rfl⟩
      | cons hentry hrest => exact absurd hlength (Nat.succ_ne_zero _)
  | succ count ih =>
    refine (reads_u8.bind fun lane _ ↦ (((reads_u64.bind fun through _ ↦ ((ih (some lane)).bind
      fun rest _ ↦ Reads.pure _).guard CodecError.malformed (seqLast < through))).guard .malformed
        (previous.any (lane ≤ ·) = true)).guard .unknownMessage (lane ≠ laneCombat)).congr
      fun entries bytes ↦ ⟨?_, ?_⟩
    · rintro ⟨lane, -, -, ⟨-, rfl⟩, ⟨hlane, hprevious, through, form, -, hform, ⟨hthrough,
        rest, tail, -, ⟨hlength, hcheck, hrest⟩, ⟨rfl, rfl⟩, rfl⟩, rfl⟩, rfl⟩
      refine ⟨congrArg Nat.succ hlength, ?_, ?_⟩
      · rw [checkLaneEntries, if_neg hlane, if_neg hprevious, if_neg hthrough, hcheck]
      · rw [append_nil, ← List.append_assoc]
        exact .cons ⟨form, hform, rfl⟩ hrest
    · rintro ⟨hlength, hcheck, hentries⟩
      cases hentries with
      | nil => exact absurd hlength.symm (Nat.succ_ne_zero _)
      | @cons entry rest front back hentry hrest =>
        obtain ⟨form, hform, rfl⟩ := hentry
        have hbyte := (entry_of_checkLaneEntries hcheck entry List.mem_cons_self).1
        unfold checkLaneEntries at hcheck
        split_ifs at hcheck with hlane hprevious hthrough
        refine ⟨entry.1, _, form ++ back, ⟨hbyte, rfl⟩, ⟨hlane, hprevious, entry.2, form, back,
          hform, ⟨hthrough, rest, back, [], ⟨Nat.succ.inj hlength, hcheck, hrest⟩, ⟨rfl, rfl⟩,
          (append_nil back).symm⟩, rfl⟩, List.append_assoc ..⟩

theorem reads_lanes : Reads (fun entries bytes ↦ checkLanes entries = .ok () ∧
    LanesWritten (VarintForm 64) entries bytes) takeLanes := by
  refine (reads_u8.bind fun count _ ↦ ((reads_laneEntries count none).guard
    CodecError.limitExceeded (maxResumeLanes < count)).guard .malformed (count = 0)).congr
    fun entries bytes ↦ ⟨?_, ?_⟩
  · rintro ⟨count, -, body, ⟨-, rfl⟩, ⟨hnone, hmany, rfl, hcheck, hentries⟩, rfl⟩
    exact ⟨checkLanes_eq_ok_iff.mpr ⟨hnone, not_lt.mp hmany, hcheck⟩, body, hentries, rfl⟩
  · rintro ⟨hcheck, body, hentries, rfl⟩
    obtain ⟨hnone, hmany, hloop⟩ := checkLanes_eq_ok_iff.mp hcheck
    have hmax : maxResumeLanes = 4 := rfl
    exact ⟨entries.length, _, body, ⟨by omega, rfl⟩, ⟨hnone, not_lt.mpr hmany, rfl, hloop,
      hentries⟩, rfl⟩

theorem reads_resumeTag :
    Reads (fun tag bytes ↦ tag < 256 ∧ bytes = putResumeHeader tag) takeResumeTag := by
  refine (reads_u8.bind fun version _ ↦ (reads_u8.bind fun lane _ ↦ reads_u8.guard
    CodecError.wrongDirection (lane ≠ laneSession)).guard .unsupportedVersion
      (version ≠ resumeVersion)).congr fun tag bytes ↦ ⟨?_, ?_⟩
  · rintro ⟨version, -, -, ⟨-, rfl⟩, ⟨hversion, lane, -, -, ⟨-, rfl⟩, ⟨hlane, htag, rfl⟩, rfl⟩,
      rfl⟩
    rw [not_not.mp hversion, not_not.mp hlane]
    exact ⟨htag, rfl⟩
  · rintro ⟨htag, rfl⟩
    exact ⟨resumeVersion, _, _, ⟨by decide, rfl⟩, ⟨not_not.mpr rfl, laneSession, _, _,
      ⟨by decide, rfl⟩, ⟨not_not.mpr rfl, htag, rfl⟩, rfl⟩, rfl⟩

theorem map_claim (claims : List LaneClaim) :
    (claims.map LaneClaim.entry).map (fun entry ↦ (⟨entry.1, entry.2⟩ : LaneClaim)) = claims := by
  rw [map_map]
  exact map_id claims

theorem map_entry_claim (entries : List (ℕ × ℕ)) :
    (entries.map fun entry ↦ (⟨entry.1, entry.2⟩ : LaneClaim)).map LaneClaim.entry = entries := by
  rw [map_map]
  exact map_id entries

theorem map_progress (progress : List LaneProgress) :
    (progress.map LaneProgress.entry).map (fun entry ↦ (⟨entry.1, entry.2⟩ : LaneProgress)) =
      progress := by
  rw [map_map]
  exact map_id progress

theorem map_entry_progress (entries : List (ℕ × ℕ)) :
    (entries.map fun entry ↦ (⟨entry.1, entry.2⟩ : LaneProgress)).map LaneProgress.entry =
      entries := by
  rw [map_map]
  exact map_id entries

/-! ### Requests -/

namespace ResumeRequest

/-- What the types of the fields hold. -/
def Fits (request : ResumeRequest) : Prop := (request.fence : ℕ) < 2 ^ 64

/-- The rules hold of the claims. -/
def Valid (request : ResumeRequest) : Prop := request.validate = .ok ()

/-- The bytes the encoder writes. -/
def put (request : ResumeRequest) : List UInt8 :=
  putResumeHeader resumeTagRequest ++ (request.epoch.toList ++ (putInt 64 request.fence ++
    (putProof request.proof ++ putLanes (request.claims.map LaneClaim.entry))))

variable {request : ResumeRequest} {bytes : List UInt8}

theorem written_shortest_iff : request.Written Shortest bytes ↔ bytes = request.put := by
  constructor
  · rintro ⟨fence, lanes, rfl, hlanes, rfl⟩
    rw [lanesWritten_shortest_iff.mp hlanes, put]
  · rintro rfl
    exact ⟨_, _, rfl, lanesWritten_shortest_iff.mpr rfl, rfl⟩

theorem Written.varints (hfits : request.Fits) (hvalid : request.Valid)
    (hwritten : request.Written Shortest bytes) : request.Written (VarintForm 64) bytes := by
  obtain ⟨fence, lanes, rfl, hlanes, rfl⟩ := hwritten
  refine ⟨_, lanes, .putInt hfits, hlanes.imp ?_, rfl⟩
  rintro entry hmem - rfl
  exact .putInt (entry_of_checkLaneEntries (checkLanes_eq_ok_iff.mp hvalid).2.2 entry hmem).2

theorem Written.fits (hwritten : request.Written (VarintForm 64) bytes) : request.Fits := by
  obtain ⟨fence, lanes, hfence, -, -⟩ := hwritten
  exact hfence.lt

theorem Written.length_put_le (hwritten : request.Written (VarintForm 64) bytes) :
    request.put.length ≤ bytes.length := by
  obtain ⟨fence, lanes, hfence, hlanes, rfl⟩ := hwritten
  have hshortFence := hfence.length_le
  have hshortLanes := hlanes.length_putLanes_le
  simp only [put, length_append]
  omega

theorem Written.length_le {integers : ℕ → List UInt8 → Prop}
    (hintegers : ∀ value form, integers value form → form.length ≤ 10) (hvalid : request.Valid)
    (hwritten : request.Written integers bytes) : bytes.length ≤ maxResumeFrameBytes := by
  obtain ⟨fence, lanes, hfence, hlanes, rfl⟩ := hwritten
  have hlengthFence := hintegers _ _ hfence
  have hlengthLanes := hlanes.length_le hintegers (checkLanes_eq_ok_iff.mp hvalid).2.1
  have hproof := request.proof.short
  have hmax : maxResumeProofBytes = 128 := rfl
  have hframe : maxResumeFrameBytes = 4096 := rfl
  simp only [length_append, putResumeHeader, putByte, putProof, length_singleton,
    Vector.length_toList]
  omega

end ResumeRequest

theorem reads_requestAfter (tag : ℕ) :
    Reads (fun request bytes ↦ tag = resumeTagRequest ∧ request.Valid ∧
      request.Written (VarintForm 64) (putResumeHeader tag ++ bytes)) (takeRequestAfter tag) := by
  have hrefused (fault : CodecError) (hrequest : tag ≠ resumeTagRequest) :
      Reads (fun request bytes ↦ tag = resumeTagRequest ∧ request.Valid ∧
        request.Written (VarintForm 64) (putResumeHeader tag ++ bytes))
        (throw fault : WireReader ResumeRequest) :=
    (Reads.throw fault).congr fun request bytes ↦
      ⟨False.elim, fun hmessage ↦ absurd hmessage.1 hrequest⟩
  unfold takeRequestAfter
  split
  · refine (reads_epoch.bind fun epoch _ ↦ reads_fence.bind fun fence _ ↦ reads_proof.bind
      fun proof _ ↦ reads_lanes.bind fun entries _ ↦ Reads.pure _).congr
      fun request bytes ↦ ⟨?_, ?_⟩
    · rintro ⟨epoch, front, back, rfl, ⟨fence, form, later, hfence, ⟨proof, middle, last, rfl,
        ⟨entries, lanes, rest, ⟨hcheck, hlanes⟩, ⟨rfl, rfl⟩, rfl⟩, rfl⟩, rfl⟩, rfl⟩
      refine ⟨rfl, ?_, form, lanes, hfence, ?_, ?_⟩
      · show checkLanes _ = _
        rw [map_entry_claim]
        exact hcheck
      · rw [map_entry_claim]
        exact hlanes
      · rw [append_nil]
    · rintro ⟨-, hvalid, fence, lanes, hfence, hlanes, hbytes⟩
      rw [append_cancel_left hbytes]
      refine ⟨request.epoch, _, _, rfl, ⟨request.fence, fence, _, hfence, ⟨request.proof, _, _, rfl,
        ⟨request.claims.map LaneClaim.entry, lanes, [], ⟨hvalid, hlanes⟩, ⟨?_, rfl⟩,
        (append_nil lanes).symm⟩, rfl⟩, rfl⟩, rfl⟩
      rw [map_claim]
  · exact hrefused _ (by decide)
  · exact hrefused _ (by decide)
  · exact hrefused _ (by decide)
  · next hrequest _ _ _ => exact hrefused _ hrequest

theorem reads_request : Reads (fun request bytes ↦ request.Valid ∧
    request.Written (VarintForm 64) bytes) (takeResumeTag >>= takeRequestAfter) := by
  refine (reads_resumeTag.bind fun tag _ ↦ reads_requestAfter tag).congr
    fun request bytes ↦ ⟨?_, ?_⟩
  · rintro ⟨tag, front, back, ⟨-, rfl⟩, ⟨-, hvalid, hwritten⟩, rfl⟩
    exact ⟨hvalid, hwritten⟩
  · rintro ⟨hvalid, hwritten⟩
    obtain ⟨fence, lanes, hfence, hlanes, rfl⟩ := hwritten
    exact ⟨resumeTagRequest, _, _, ⟨by decide, rfl⟩, ⟨rfl, hvalid, fence, lanes, hfence, hlanes,
      rfl⟩, rfl⟩

/-! ### Downstream frames -/

theorem ResumeRejection.fromU8_eq_some_iff {raw : ℕ} {reason : ResumeRejection} :
    ResumeRejection.fromU8 raw = some reason ↔ raw = reason.asU8 := by
  constructor
  · intro hreason
    unfold ResumeRejection.fromU8 at hreason
    split at hreason <;> cases hreason <;> rfl
  · rintro rfl
    cases reason <;> rfl

/-- The rules of an acceptance. -/
theorem validate_accepted_iff {answer : ResumeAccepted} :
    (ResumeResult.accepted answer).validate = .ok () ↔ ¬answer.granted < 2 ∧
      checkLanes (answer.progress.map LaneProgress.entry) = .ok () := by
  show (if answer.granted < 2 then _ else _) = _ ↔ _
  split_ifs with hlow
  · simp [hlow]
  · simp [hlow]

namespace ResumeDown

/-- What the types of the fields hold. -/
def Fits : ResumeDown → Prop
  | .answer (.accepted accepted) => (accepted.granted : ℕ) < 2 ^ 64
  | _ => True

def tag : ResumeDown → ℕ
  | .ticket _ => resumeTagTicket
  | .answer (.accepted _) => resumeTagAccepted
  | .answer (.rejected _) => resumeTagRejected

/-- The bytes after the tag. -/
def putFields : ResumeDown → List UInt8
  | .ticket issued => issued.epoch.toList ++ putProof issued.proof
  | .answer (.accepted accepted) => accepted.epoch.toList ++ (putInt 64 accepted.granted ++
      putLanes (accepted.progress.map LaneProgress.entry))
  | .answer (.rejected rejected) => rejected.epoch.toList ++ putByte rejected.reason.asU8

/-- The bytes the encoder writes. -/
def put (message : ResumeDown) : List UInt8 := putResumeHeader message.tag ++ message.putFields

variable {message : ResumeDown} {bytes : List UInt8}

theorem written_shortest_iff : message.Written Shortest bytes ↔ bytes = message.put := by
  match message with
  | .ticket issued => exact Iff.rfl
  | .answer (.rejected rejected) => exact Iff.rfl
  | .answer (.accepted accepted) =>
    constructor
    · rintro ⟨granted, lanes, rfl, hlanes, rfl⟩
      rw [lanesWritten_shortest_iff.mp hlanes]
      rfl
    · rintro rfl
      exact ⟨_, _, rfl, lanesWritten_shortest_iff.mpr rfl, rfl⟩

theorem Written.varints (hfits : message.Fits) (hvalid : message.Valid)
    (hwritten : message.Written Shortest bytes) : message.Written (VarintForm 64) bytes := by
  match message with
  | .ticket issued => exact hwritten
  | .answer (.rejected rejected) => exact hwritten
  | .answer (.accepted accepted) =>
    obtain ⟨granted, lanes, rfl, hlanes, rfl⟩ := hwritten
    have hcheck := (validate_accepted_iff.mp hvalid).2
    refine ⟨_, lanes, .putInt hfits, hlanes.imp ?_, rfl⟩
    rintro entry hmem - rfl
    exact .putInt (entry_of_checkLaneEntries (checkLanes_eq_ok_iff.mp hcheck).2.2 entry hmem).2

theorem Written.fits (hwritten : message.Written (VarintForm 64) bytes) : message.Fits := by
  match message with
  | .ticket issued => exact trivial
  | .answer (.rejected rejected) => exact trivial
  | .answer (.accepted accepted) =>
    obtain ⟨granted, lanes, hgranted, -, -⟩ := hwritten
    exact hgranted.lt

theorem Written.length_put_le (hwritten : message.Written (VarintForm 64) bytes) :
    message.put.length ≤ bytes.length := by
  match message with
  | .ticket issued => exact (congrArg List.length hwritten).ge
  | .answer (.rejected rejected) => exact (congrArg List.length hwritten).ge
  | .answer (.accepted accepted) =>
    obtain ⟨granted, lanes, hgranted, hlanes, rfl⟩ := hwritten
    have hshortGranted := hgranted.length_le
    have hshortLanes := hlanes.length_putLanes_le
    simp only [put, tag, putFields, length_append]
    omega

theorem Written.length_le {integers : ℕ → List UInt8 → Prop}
    (hintegers : ∀ value form, integers value form → form.length ≤ 10) (hvalid : message.Valid)
    (hwritten : message.Written integers bytes) : bytes.length ≤ maxResumeFrameBytes := by
  have hmax : maxResumeProofBytes = 128 := rfl
  have hframe : maxResumeFrameBytes = 4096 := rfl
  match message with
  | .ticket issued =>
    have hproof := issued.proof.short
    rw [show bytes = _ from hwritten]
    simp only [length_append, putResumeHeader, putByte, putProof, length_singleton,
      Vector.length_toList]
    omega
  | .answer (.rejected rejected) =>
    rw [show bytes = _ from hwritten]
    simp only [length_append, putResumeHeader, putByte, length_singleton, Vector.length_toList]
    omega
  | .answer (.accepted accepted) =>
    obtain ⟨granted, lanes, hgranted, hlanes, rfl⟩ := hwritten
    have hcheck := (validate_accepted_iff.mp hvalid).2
    have hlengthGranted := hintegers _ _ hgranted
    have hlengthLanes := hlanes.length_le hintegers (checkLanes_eq_ok_iff.mp hcheck).2.1
    simp only [length_append, putResumeHeader, putByte, length_singleton, Vector.length_toList]
    omega

end ResumeDown

theorem reads_resumeDownAfter (tag : ℕ) :
    Reads (fun message bytes ↦ message.tag = tag ∧ message.Valid ∧
      message.Written (VarintForm 64) (putResumeHeader tag ++ bytes))
      (takeResumeDownAfter tag) := by
  have hrefused (fault : CodecError) (hticket : tag ≠ resumeTagTicket)
      (haccepted : tag ≠ resumeTagAccepted) (hrejected : tag ≠ resumeTagRejected) :
      Reads (fun message bytes ↦ message.tag = tag ∧ message.Valid ∧
        message.Written (VarintForm 64) (putResumeHeader tag ++ bytes))
        (throw fault : WireReader ResumeDown) := by
    refine (Reads.throw fault).congr fun message bytes ↦ ⟨False.elim, fun hmessage ↦ ?_⟩
    match message with
    | .ticket issued => exact hticket hmessage.1.symm
    | .answer (.accepted accepted) => exact haccepted hmessage.1.symm
    | .answer (.rejected rejected) => exact hrejected hmessage.1.symm
  unfold takeResumeDownAfter
  split
  · refine (reads_epoch.bind fun epoch _ ↦ reads_proof.bind fun proof _ ↦ Reads.pure _).congr
      fun message bytes ↦ ⟨?_, ?_⟩
    · rintro ⟨epoch, front, back, rfl, ⟨proof, middle, last, rfl, ⟨rfl, rfl⟩, rfl⟩, rfl⟩
      rw [append_nil]
      exact ⟨rfl, rfl, rfl⟩
    · rintro ⟨htag, -, hwritten⟩
      match message with
      | .ticket issued =>
        rw [append_cancel_left (show _ = _ from hwritten)]
        exact ⟨issued.epoch, _, _, rfl, ⟨issued.proof, _, [], rfl, ⟨rfl, rfl⟩,
          (append_nil _).symm⟩, rfl⟩
  · refine (reads_epoch.bind fun epoch _ ↦ reads_fence.bind fun granted _ ↦ (reads_lanes.bind
      fun entries _ ↦ Reads.pure _).guard CodecError.malformed (granted < 2)).congr
      fun message bytes ↦ ⟨?_, ?_⟩
    · rintro ⟨epoch, front, back, rfl, ⟨granted, form, later, hgranted, ⟨hlow, entries, lanes, rest,
        ⟨hcheck, hlanes⟩, ⟨rfl, rfl⟩, rfl⟩, rfl⟩, rfl⟩
      refine ⟨rfl, ?_, form, lanes, hgranted, ?_, ?_⟩
      · apply validate_accepted_iff.mpr
        rw [map_entry_progress]
        exact ⟨hlow, hcheck⟩
      · rw [map_entry_progress]
        exact hlanes
      · rw [append_nil]
    · rintro ⟨htag, hvalid, hwritten⟩
      match message with
      | .answer (.accepted accepted) =>
        obtain ⟨granted, lanes, hgranted, hlanes, hbytes⟩ := hwritten
        obtain ⟨hlow, hcheck⟩ := validate_accepted_iff.mp hvalid
        rw [append_cancel_left hbytes]
        refine ⟨accepted.epoch, _, _, rfl, ⟨accepted.granted, granted, _, hgranted, ⟨hlow,
          accepted.progress.map LaneProgress.entry, lanes, [], ⟨hcheck, hlanes⟩, ⟨?_, rfl⟩,
          (append_nil lanes).symm⟩, rfl⟩, rfl⟩
        rw [map_progress]
  · refine (reads_epoch.bind fun epoch _ ↦ reads_u8.bind fun raw _ ↦ (Reads.okOr _
      (ResumeRejection.fromU8 raw)).bind fun reason _ ↦ Reads.pure _).congr
      fun message bytes ↦ ⟨?_, ?_⟩
    · rintro ⟨epoch, front, back, rfl, ⟨raw, middle, last, ⟨-, rfl⟩, ⟨reason, second, third,
        ⟨hreason, rfl⟩, ⟨rfl, rfl⟩, rfl⟩, rfl⟩, rfl⟩
      rw [append_nil, append_nil, ResumeRejection.fromU8_eq_some_iff.mp hreason]
      exact ⟨rfl, rfl, rfl⟩
    · rintro ⟨htag, -, hwritten⟩
      match message with
      | .answer (.rejected rejected) =>
        rw [append_cancel_left (show _ = _ from hwritten)]
        exact ⟨rejected.epoch, _, _, rfl, ⟨rejected.reason.asU8, _, [],
          ⟨by cases rejected.reason <;> decide, rfl⟩, ⟨rejected.reason, [], [],
          ⟨ResumeRejection.fromU8_eq_some_iff.mpr rfl, rfl⟩, ⟨rfl, rfl⟩, rfl⟩,
          (append_nil _).symm⟩, rfl⟩
  · exact hrefused _ (by decide) (by decide) (by decide)
  · next hticket haccepted hrejected _ => exact hrefused _ hticket haccepted hrejected

theorem reads_resumeDown : Reads (fun message bytes ↦ message.Valid ∧
    message.Written (VarintForm 64) bytes) (takeResumeTag >>= takeResumeDownAfter) := by
  refine (reads_resumeTag.bind fun tag _ ↦ reads_resumeDownAfter tag).congr
    fun message bytes ↦ ⟨?_, ?_⟩
  · rintro ⟨tag, front, back, ⟨-, rfl⟩, ⟨-, hvalid, hwritten⟩, rfl⟩
    exact ⟨hvalid, hwritten⟩
  · rintro ⟨hvalid, hwritten⟩
    have hheader : ∃ fields, bytes = putResumeHeader message.tag ++ fields := by
      match message with
      | .ticket issued => exact ⟨_, hwritten⟩
      | .answer (.rejected rejected) => exact ⟨_, hwritten⟩
      | .answer (.accepted accepted) =>
        obtain ⟨granted, lanes, -, -, hbytes⟩ := hwritten
        exact ⟨_, hbytes⟩
    obtain ⟨fields, rfl⟩ := hheader
    have htag : message.tag < 256 := by
      match message with
      | .ticket issued => exact Nat.le_of_ble_eq_true rfl
      | .answer (.rejected rejected) => exact Nat.le_of_ble_eq_true rfl
      | .answer (.accepted accepted) => exact Nat.le_of_ble_eq_true rfl
    exact ⟨message.tag, _, fields, ⟨htag, rfl⟩, ⟨rfl, hvalid, hwritten⟩, rfl⟩

theorem ResumeDown.validate_ne_frameTooLarge (message : ResumeDown) :
    message.validate ≠ .error .frameTooLarge := by
  match message with
  | .ticket issued => exact nofun
  | .answer (.rejected rejected) => exact nofun
  | .answer (.accepted accepted) =>
    show (if accepted.granted < 2 then _ else _) ≠ _
    split_ifs
    · exact nofun
    · exact checkLanes_ne_frameTooLarge _

/-! ### Formats -/

/-- A wire format whose integers have several forms: the decoder takes them all, and the encoder
writes the shortest. -/
structure IntegerFormat {α : Type} (fits valid : α → Prop)
    (written : (ℕ → List UInt8 → Prop) → α → List UInt8 → Prop)
    (encode : α → Except CodecError (List UInt8)) (decode : List UInt8 → Except CodecError α) :
    Prop where
  format : WireFormat fits valid encode decode
  encodes_iff : ∀ message bytes, encode message = .ok bytes ↔
    valid message ∧ written Shortest message bytes
  decodes_iff : ∀ message bytes, decode bytes = .ok message ↔
    valid message ∧ written (VarintForm 64) message bytes

section

variable {α : Type} {fits valid : α → Prop}
  {written : (ℕ → List UInt8 → Prop) → α → List UInt8 → Prop} {check : α → Except CodecError Unit}
  {put : α → List UInt8} {encode : α → Except CodecError (List UInt8)} {read : WireReader α}
  {cap : ℕ}

/-- A message that passes its check is encoded. Assumes: it is within the cap. -/
theorem encode_eq_ok_iff (hvalid : ∀ message, valid message ↔ check message = .ok ())
    (hencode : ∀ message, encode message = (check message).bind fun _ ↦ capped cap (put message))
    (hcap : ∀ message, valid message → (put message).length ≤ cap) (message : α)
    (bytes : List UInt8) : encode message = .ok bytes ↔ valid message ∧ bytes = put message := by
  rw [hencode]
  cases hcheck : check message with
  | error fault =>
    refine ⟨fun hok ↦ absurd hok (error_ne_ok _ _), fun hmessage ↦ ?_⟩
    exact absurd (hcheck.symm.trans ((hvalid message).mp hmessage.1)) (error_ne_ok _ _)
  | ok value =>
    have hmessage : valid message := (hvalid message).mpr hcheck
    show capped cap (put message) = .ok bytes ↔ _
    rw [capped_of_le (hcap message hmessage), Except.ok.injEq, and_iff_right hmessage]
    exact eq_comm

theorem integerFormat_of_reads (hvalid : ∀ message, valid message ↔ check message = .ok ())
    (hnever : ∀ message, check message ≠ .error .frameTooLarge)
    (hencode : ∀ message, encode message = (check message).bind fun _ ↦ capped cap (put message))
    (hshortest : ∀ message bytes, written Shortest message bytes ↔ bytes = put message)
    (hvarints : ∀ message bytes, fits message → valid message → written Shortest message bytes →
      written (VarintForm 64) message bytes)
    (hfits : ∀ message bytes, written (VarintForm 64) message bytes → fits message)
    (hshort : ∀ message bytes, written (VarintForm 64) message bytes →
      (put message).length ≤ bytes.length) (hcap : ∀ integers : ℕ → List UInt8 → Prop,
      (∀ value form, integers value form → form.length ≤ 10) →
      ∀ message bytes, valid message → written integers message bytes → bytes.length ≤ cap)
    (hreads : Reads (fun message bytes ↦ valid message ∧ written (VarintForm 64) message bytes)
      read) : IntegerFormat fits valid written encode fun bytes ↦
      if cap < bytes.length then .error .frameTooLarge else readAll read .malformed bytes := by
  have hput (message : α) (hmessage : valid message) : (put message).length ≤ cap :=
    hcap Shortest Shortest.length_le message _ hmessage ((hshortest _ _).mpr rfl)
  have hok := encode_eq_ok_iff hvalid hencode hput
  refine ⟨wireFormat_of_codes hok hput (fun message ↦ ?_) (hreads.codes ?_ ?_),
    fun message bytes ↦ ?_, fun message bytes ↦ ?_⟩
  · rw [hencode]
    cases hcheck : check message with
    | error fault =>
      intro hlarge
      cases hlarge
      exact hnever message hcheck
    | ok value =>
      have hsome := (hok message _).mpr ⟨(hvalid message).mpr hcheck, rfl⟩
      rw [hencode, hcheck] at hsome
      rw [hsome]
      exact nofun
  · rintro message bytes ⟨hmessage, hencoded⟩
    obtain ⟨hrules, hbytes⟩ := (hok message bytes).mp hencoded
    exact ⟨hrules, hvarints message bytes hmessage hrules ((hshortest _ _).mpr hbytes)⟩
  · rintro message bytes ⟨hrules, hwritten⟩
    exact ⟨put message, ⟨hfits _ _ hwritten, (hok message _).mpr ⟨hrules, rfl⟩⟩,
      hshort _ _ hwritten⟩
  · rw [hok, hshortest]
  · by_cases hlong : cap < bytes.length
    · rw [if_pos hlong]
      refine ⟨fun hread ↦ absurd hread (error_ne_ok _ _), ?_⟩
      rintro ⟨hrules, hwritten⟩
      exact absurd (hcap _ (fun _ _ hform ↦ hform.length_le_max) _ _ hrules hwritten)
        (not_le.mpr hlong)
    · rw [if_neg hlong]
      exact hreads.readAll_iff

end

theorem readAll_resume_nil {α : Type} (next : ℕ → WireReader α) :
    readAll (takeResumeTag >>= next) CodecError.malformed [] = .error .malformed := rfl

theorem decodeRequest_eq : decodeRequest = fun bytes ↦
    if maxResumeFrameBytes < bytes.length then .error .frameTooLarge
    else readAll (takeResumeTag >>= takeRequestAfter) .malformed bytes := by
  funext bytes
  unfold decodeRequest
  split_ifs with hlong hnone
  · rfl
  · rw [hnone, readAll_resume_nil]
  · rfl

theorem decodeResumeDown_eq : decodeResumeDown = fun bytes ↦
    if maxResumeFrameBytes < bytes.length then .error .frameTooLarge
    else readAll (takeResumeTag >>= takeResumeDownAfter) .malformed bytes := by
  funext bytes
  unfold decodeResumeDown
  split_ifs with hlong hnone
  · rfl
  · rw [hnone, readAll_resume_nil]
  · rfl

theorem request_format : IntegerFormat ResumeRequest.Fits ResumeRequest.Valid
    ResumeRequest.Written encodeRequest decodeRequest := by
  rw [decodeRequest_eq]
  have hencode (request : ResumeRequest) : encodeRequest request =
      request.validate.bind fun _ ↦ capped maxResumeFrameBytes request.put := rfl
  exact integerFormat_of_reads (fun _ ↦ Iff.rfl)
    (fun request ↦ checkLanes_ne_frameTooLarge (request.claims.map LaneClaim.entry)) hencode
    (fun _ _ ↦ ResumeRequest.written_shortest_iff) (fun _ _ ↦ ResumeRequest.Written.varints)
    (fun _ _ ↦ ResumeRequest.Written.fits) (fun _ _ ↦ ResumeRequest.Written.length_put_le)
    (fun _ hintegers _ _ ↦ ResumeRequest.Written.length_le hintegers) reads_request

theorem resumeDown_format : IntegerFormat ResumeDown.Fits ResumeDown.Valid ResumeDown.Written
    encodeResumeDown decodeResumeDown := by
  rw [decodeResumeDown_eq]
  have hencode (message : ResumeDown) : encodeResumeDown message =
      message.validate.bind fun _ ↦ capped maxResumeFrameBytes message.put := by
    match message with
    | .ticket issued => rfl
    | .answer (.rejected rejected) => rfl
    | .answer (.accepted accepted) => rfl
  exact integerFormat_of_reads (fun _ ↦ Iff.rfl) ResumeDown.validate_ne_frameTooLarge hencode
    (fun _ _ ↦ ResumeDown.written_shortest_iff) (fun _ _ ↦ ResumeDown.Written.varints)
    (fun _ _ ↦ ResumeDown.Written.fits) (fun _ _ ↦ ResumeDown.Written.length_put_le)
    (fun _ hintegers _ _ ↦ ResumeDown.Written.length_le hintegers) reads_resumeDown

/-! ### Vocabularies -/

/-- The wire vocabularies, each under its version byte. -/
inductive Vocabulary
  | laneV1
  | laneV2
  | transfer
  | resume
deriving DecidableEq

namespace Vocabulary

def version : Vocabulary → ℕ
  | laneV1 => protocolVersion
  | laneV2 => protocolVersionV2
  | transfer => transferVersion
  | resume => resumeVersion

theorem version_inj {first second : Vocabulary} (heq : first.version = second.version) :
    first = second := by
  cases first <;> cases second <;> first | rfl | exact absurd heq (by decide)

def AcceptsUp : Vocabulary → List UInt8 → Prop
  | laneV1, bytes => ∃ frame, decodeIntent bytes = .ok frame
  | laneV2, bytes => ∃ frame, decodeIntentV2 bytes = .ok frame
  | transfer, bytes => ∃ message, decodeUp bytes = .ok message
  | resume, bytes => ∃ request, decodeRequest bytes = .ok request

def AcceptsDown : Vocabulary → List UInt8 → Prop
  | laneV1, bytes => ∃ frame, decodeDelta bytes = .ok frame
  | laneV2, bytes => ∃ frame, decodeDeltaV2 bytes = .ok frame
  | transfer, bytes => ∃ message, decodeDown bytes = .ok message
  | resume, bytes => ∃ message, decodeResumeDown bytes = .ok message

end Vocabulary

variable {version : ℕ}

theorem head_of_version {α : Type} {next : ℕ → WireReader α} {fault : CodecError}
    {result : α × List UInt8}
    (hread : (takeU8 >>= fun found ↦ if found ≠ version then throw fault else next found) bytes =
      .ok result) : bytes.head?.map UInt8.toNat = some version := by
  obtain ⟨found, rest, hfound, hnext⟩ := reader_bind_eq_ok_iff.mp hread
  have hversion : found = version := by
    by_contra hne
    rw [if_pos hne] at hnext
    exact absurd hnext (error_ne_ok _ _)
  obtain ⟨front, ⟨hbyte, rfl⟩, rfl⟩ := (reads_u8 _ _ _).mp hfound
  show some (UInt8.ofNat found).toNat = _
  rw [UInt8.toNat_ofNat_of_lt' hbyte, hversion]

theorem head_of_decodeIntentOf {takeUlid : WireReader Ulid} {frame : IntentFrame}
    (hdecode : decodeIntentOf version takeUlid bytes = .ok frame) :
    bytes.head?.map UInt8.toNat = some version := by
  unfold decodeIntentOf at hdecode
  split_ifs at hdecode
  exact head_of_version (readAll_eq_ok_iff.mp hdecode)

theorem head_of_decodeDeltaOf {α β : Type} {takeOp : WireReader α} {build : DeltaFields α → β}
    {frame : β} (hdecode : (decodeDeltaOf version takeOp bytes).map build = .ok frame) :
    bytes.head?.map UInt8.toNat = some version := by
  cases hfields : decodeDeltaOf version takeOp bytes with
  | error fault =>
    rw [hfields] at hdecode
    exact absurd hdecode (error_ne_ok _ _)
  | ok fields =>
    unfold decodeDeltaOf at hfields
    split_ifs at hfields
    exact head_of_version (readAll_eq_ok_iff.mp hfields)

theorem head_of_takeTransferTag {α : Type} {next : ℕ → WireReader α} {message : α}
    (hread : readAll (takeTransferTag >>= next) CodecError.malformed bytes = .ok message) :
    bytes.head?.map UInt8.toNat = some transferVersion := by
  obtain ⟨tag, rest, htag, -⟩ := reader_bind_eq_ok_iff.mp (readAll_eq_ok_iff.mp hread)
  exact head_of_version htag

theorem head_of_takeResumeTag {α : Type} {next : ℕ → WireReader α} {message : α}
    (hread : readAll (takeResumeTag >>= next) CodecError.malformed bytes = .ok message) :
    bytes.head?.map UInt8.toNat = some resumeVersion := by
  obtain ⟨tag, rest, htag, -⟩ := reader_bind_eq_ok_iff.mp (readAll_eq_ok_iff.mp hread)
  exact head_of_version htag

namespace Vocabulary

variable {bytes : List UInt8}

theorem AcceptsUp.head {vocabulary : Vocabulary} (haccepts : vocabulary.AcceptsUp bytes) :
    bytes.head?.map UInt8.toNat = some vocabulary.version := by
  cases vocabulary with
  | laneV1 => exact head_of_decodeIntentOf haccepts.choose_spec
  | laneV2 => exact head_of_decodeIntentOf haccepts.choose_spec
  | transfer =>
    obtain ⟨message, hdecode⟩ := haccepts
    unfold decodeUp at hdecode
    split_ifs at hdecode
    exact head_of_takeTransferTag hdecode
  | resume =>
    obtain ⟨request, hdecode⟩ := haccepts
    unfold decodeRequest at hdecode
    split_ifs at hdecode
    exact head_of_takeResumeTag hdecode

theorem AcceptsDown.head {vocabulary : Vocabulary} (haccepts : vocabulary.AcceptsDown bytes) :
    bytes.head?.map UInt8.toNat = some vocabulary.version := by
  cases vocabulary with
  | laneV1 => exact head_of_decodeDeltaOf haccepts.choose_spec
  | laneV2 => exact head_of_decodeDeltaOf haccepts.choose_spec
  | transfer =>
    obtain ⟨message, hdecode⟩ := haccepts
    rw [decodeDown_eq] at hdecode
    split_ifs at hdecode
    exact head_of_takeTransferTag hdecode
  | resume =>
    obtain ⟨message, hdecode⟩ := haccepts
    unfold decodeResumeDown at hdecode
    split_ifs at hdecode
    exact head_of_takeResumeTag hdecode

theorem acceptsUp_unique {first second : Vocabulary} (hfirst : first.AcceptsUp bytes)
    (hsecond : second.AcceptsUp bytes) : first = second :=
  version_inj (Option.some.inj (hfirst.head.symm.trans hsecond.head))

theorem acceptsDown_unique {first second : Vocabulary} (hfirst : first.AcceptsDown bytes)
    (hsecond : second.AcceptsDown bytes) : first = second :=
  version_inj (Option.some.inj (hfirst.head.symm.trans hsecond.head))

end Vocabulary

end Crpg.Net
