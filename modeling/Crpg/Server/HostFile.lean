import Crpg.Persist.FileStore
import Crpg.Server.SaveFormat

/-!
# Host files

`save_host_file` and `load_host_file` of `crpg-server/src/save.rs`: the checkpoint of a quiescent
host under its identity, in a save file. `host_file_restores` is what a load finds at every state of
a save.
-/

set_option autoImplicit false

namespace Crpg.Server

open Crpg.Lib Crpg.Persist
open Result (bind_ok_iff failIf_eq_ok_iff mapErr_eq_ok_iff pure_ok_iff)

variable {δ κ Restored : Type} [DecidableEq δ]

/-- `SaveError`, with the failures of the file store. -/
inductive HostFileError (κ : Type)
  | save (error : SaveError)
  | persist (error : FileError κ)

section Store

variable (zstd : Zstd) (digest : Digest)

/-- `save_host_file`: what it fails with before the file store, or the save it makes there. -/
def saveHostFile (toVec : CheckpointOut → Option (List UInt8)) (engine : EngineVersion)
    (unix : Bool) (faults : SaveFaults κ) (files : Files δ) (path : SavePath δ) (host : Host)
    (identity : SaveIdentity) : Result SaveError (Saved δ κ) := do
  .failIf (validVersionText identity.campaignVersion = false) .invalidIdentity
  let checkpoint ← (saveCheckpoint toVec host).mapErr SaveError.checkpoint
  let payload ← encodeHostSave engine identity checkpoint
  return saveFile zstd digest unix faults files path hostSaveKind payload

/-- `load_host_file`. -/
def loadHostFile (loadCheckpoint : List UInt8 → ℕ → ℕ → Result CheckpointError Restored)
    (fuel : ℕ) (notFound : κ) (files : Files δ) (place : δ × List UInt8) (expected : SaveIdentity)
    (newIncarnation nowMs : ℕ) : Result (HostFileError κ) (LoadedSave Restored) := do
  .failIf (validVersionText expected.campaignVersion = false) (.save .invalidIdentity)
  let payload ← (loadFile zstd digest fuel notFound files place hostSaveKind).mapErr .persist
  (decodeHostSave loadCheckpoint payload expected newIncarnation nowMs).mapErr .save

end Store

variable {zstd : Zstd} {digest : Digest} {toVec : CheckpointOut → Option (List UInt8)}
  {engine : EngineVersion} {unix : Bool} {faults : SaveFaults κ} {files : Files δ}
  {path : SavePath δ} {host : Host} {identity : SaveIdentity} {fuel : ℕ} {place : δ × List UInt8}
  {loadCheckpoint : List UInt8 → ℕ → ℕ → Result CheckpointError Restored}

theorem saveHostFile_eq_ok_iff {saved : Saved δ κ} :
    saveHostFile zstd digest toVec engine unix faults files path host identity = .ok saved ↔
      ∃ checkpoint payload, saveCheckpoint toVec host = .ok checkpoint ∧
        encodeHostSave engine identity checkpoint = .ok payload ∧
        saveFile zstd digest unix faults files path hostSaveKind payload = saved := by
  simp only [saveHostFile, bind_ok_iff, failIf_eq_ok_iff, mapErr_eq_ok_iff, pure_ok_iff]
  constructor
  · rintro ⟨-, -, checkpoint, hcheckpoint, payload, hpayload, hsaved⟩
    exact ⟨checkpoint, payload, hcheckpoint, hpayload, hsaved⟩
  · rintro ⟨checkpoint, payload, hcheckpoint, hpayload, hsaved⟩
    have hvalid := (encodeHostSave_eq_ok_iff.mp hpayload).1
    exact ⟨(), by simp [hvalid], checkpoint, hcheckpoint, payload, hpayload, hsaved⟩

omit [DecidableEq δ] in
/-- A payload that is loaded is decoded under the identity asked for, and refused under others. -/
theorem loadHostFile_of_loadFile {checkpoint payload : List UInt8} {notFound : κ}
    (hencode : encodeHostSave engine identity checkpoint = .ok payload)
    (hload : loadFile zstd digest fuel notFound files place hostSaveKind = .ok payload) :
    let load := loadHostFile zstd digest loadCheckpoint fuel notFound files place
    (∀ newIncarnation nowMs, load identity newIncarnation nowMs =
      (loaded loadCheckpoint engine.text checkpoint newIncarnation nowMs).mapErr .save) ∧
    ∀ other ≠ identity, ∃ error, ∀ newIncarnation nowMs,
      load other newIncarnation nowMs = .err error := by
  intro load
  have hdecoded (expected : SaveIdentity) (newIncarnation nowMs : ℕ)
      (hvalid : validVersionText expected.campaignVersion = true) :
      load expected newIncarnation nowMs =
        (decodeHostSave loadCheckpoint payload expected newIncarnation nowMs).mapErr .save := by
    show loadHostFile _ _ _ _ _ _ _ _ _ _ = _
    rw [loadHostFile, hload, hvalid]
    rfl
  refine ⟨fun newIncarnation nowMs ↦ ?_, fun other hother ↦ ?_⟩
  · rw [hdecoded _ _ _ (encodeHostSave_eq_ok_iff.mp hencode).1,
      decodeHostSave_of_encode loadCheckpoint hencode]
  · cases hvalid : validVersionText other.campaignVersion with
    | false =>
      refine ⟨.save .invalidIdentity, fun newIncarnation nowMs ↦ ?_⟩
      show loadHostFile _ _ _ _ _ _ _ _ _ _ = _
      rw [loadHostFile, hvalid]
      rfl
    | true =>
      obtain ⟨error, herror⟩ := decodeHostSave_of_other loadCheckpoint hencode hother
      exact ⟨.save error, fun _ _ ↦ by rw [hdecoded _ _ _ hvalid, herror]; rfl⟩

/-- The file of a host. A host save reaches the file store exactly when its checkpoint fits under an
admissible identity. A process that stops at any state of it leaves what a load finds at its
destination; so does a save that fails before the sync of the directory. When it returns, or only
that sync failed, a load finds the checkpoint, under its identity alone. Assumes: a faithful
compression library, digests of 32 bytes, and fuel past the payload cap. -/
theorem host_file_restores (toVec : CheckpointOut → Option (List UInt8))
    (loadCheckpoint : List UInt8 → ℕ → ℕ → Result CheckpointError Restored)
    (hfaithful : zstd.Faithful) (hdigest : ∀ front body, (digest front body).length = 32)
    (hfuel : maxPayloadBytes < fuel) (notFound : κ) (engine : EngineVersion) (unix : Bool)
    (faults : SaveFaults κ) (files : Files δ) {path : SavePath δ} (host : Host)
    (identity : SaveIdentity) {name : List UInt8} (hname : path.fileName = some name) :
    let save := saveHostFile zstd digest toVec engine unix faults files path host identity
    let load := fun state ↦
      loadHostFile zstd digest loadCheckpoint fuel notFound state (path.parent, name)
    ((∃ saved, save = .ok saved) ↔ validVersionText identity.campaignVersion = true ∧
      ∃ checkpoint, saveCheckpoint toVec host = .ok checkpoint ∧
        headerLen engine identity + checkpoint.length ≤ maxPayloadBytes) ∧
    ∀ saved, save = .ok saved → (∀ state ∈ saved.passed, load state = load files) ∧
      (¬Replaced saved.result → load saved.last = load files) ∧
      (Replaced saved.result → ∃ checkpoint, saveCheckpoint toVec host = .ok checkpoint ∧
        (∀ newIncarnation nowMs, load saved.last identity newIncarnation nowMs =
          (loaded loadCheckpoint engine.text checkpoint newIncarnation nowMs).mapErr .save) ∧
        ∀ other ≠ identity, ∃ error, ∀ newIncarnation nowMs,
          load saved.last other newIncarnation nowMs = .err error) := by
  intro save load
  have htemp : (path.parent, name) ≠ path.temp name := fun heq ↦ by
    simpa [SavePath.temp, tempSuffix] using congrArg (List.length ∘ Prod.snd) heq
  have hsame (state : Files δ) (hstate : state (path.parent, name) = files (path.parent, name)) :
      load state = load files := by
    funext expected newIncarnation nowMs
    show loadHostFile _ _ _ _ _ _ _ _ _ _ = loadHostFile _ _ _ _ _ _ _ _ _ _
    rw [loadHostFile, loadHostFile, loadFile, loadFile, hstate]
  refine ⟨?_, fun saved hsaved ↦ ?_⟩
  · simp only [save, saveHostFile_eq_ok_iff, encodeHostSave_eq_ok_iff]
    constructor
    · rintro ⟨_, checkpoint, _, hcheckpoint, ⟨hvalid, hfits, hpayload⟩, -⟩
      refine ⟨hvalid, checkpoint, hcheckpoint, ?_⟩
      rwa [hpayload, List.length_append, length_hostSaveHeader] at hfits
    · rintro ⟨hvalid, checkpoint, hcheckpoint, hfits⟩
      refine ⟨_, checkpoint, _, hcheckpoint, ⟨hvalid, ?_, rfl⟩, rfl⟩
      rwa [List.length_append, length_hostSaveHeader]
  · obtain ⟨checkpoint, payload, hcheckpoint, hpayload, rfl⟩ := saveHostFile_eq_ok_iff.mp hsaved
    have hsettles := @saveFile_settles _ _ _ zstd digest unix faults files path hostSaveKind
      payload name hname
    refine ⟨fun state hstate ↦ hsame state (hsettles.passed state hstate _ htemp),
      fun hnot ↦ hsame _ (hsettles.kept hnot _ htemp), fun hreplaced ↦ ⟨checkpoint, hcheckpoint, ?_⟩⟩
    obtain ⟨envelope, hencode, hlast⟩ := hsettles.replaced hreplaced
    exact loadHostFile_of_loadFile hpayload (loadFile_of_encode hfaithful hdigest hfuel notFound
      hencode (hlast ▸ Function.update_self _ _ _))

theorem host_file_restores_named : ∃ saved : Saved Unit Unit, saveHostFile sampleZstd
    (fun _ _ ↦ abcStamp) namedToVec sampleEngine true ⟨none, none, none, none, false, none⟩
      (fun _ ↦ none) ⟨(), some [97]⟩ (namedHost 3) sampleIdentity = .ok saved := by
  obtain ⟨bytes, hsave, hlength⟩ := saveCheckpoint_namedHost (by decide : 3 ≤ 16776863)
  refine (host_file_restores namedToVec (fun checkpoint _ _ ↦ .ok checkpoint) faithful_sampleZstd
    (fun _ _ ↦ rfl : ∀ _ _, abcStamp.length = 32) (Nat.lt_succ_self maxPayloadBytes) () _ _ _ _ _ _
      rfl).1.mpr ⟨by decide, bytes, hsave, ?_⟩
  rw [hlength]
  decide

end Crpg.Server
