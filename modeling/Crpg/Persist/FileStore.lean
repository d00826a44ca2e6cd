import Mathlib.Data.List.Induction
import Crpg.Persist.EnvelopeFormat

/-!
# The save file

`crpg-persist/src/file.rs`: a save goes into a sibling temporary file, which is synced and renamed
over the destination. The filesystem is what each name of each directory holds; `SaveFaults` says
which calls fail, and `saveFile` gives, with its result, every state it passes through, so that a
process can stop at any of them. `saves_untorn` is what a reader finds after any run of saves.
-/

set_option autoImplicit false

namespace Crpg.Persist

open Crpg.Lib

variable {δ κ : Type} [DecidableEq δ]

/-- `TEMP_SUFFIX`: the bytes of `.crpg-tmp`. -/
def tempSuffix : List UInt8 := [46, 99, 114, 112, 103, 45, 116, 109, 112]

inductive FileOp
  | createTemp | writeTemp | syncTemp | rename | syncDir | openFile | read
deriving DecidableEq

inductive FileError (κ : Type)
  | envelope (error : EnvelopeError)
  | invalidPath
  | io (op : FileOp) (kind : κ)
deriving DecidableEq

structure SavePath (δ : Type) where
  parent : δ
  fileName : Option (List UInt8)

/-- The temporary file of a name. -/
def SavePath.temp (path : SavePath δ) (name : List UInt8) : δ × List UInt8 :=
  (path.parent, name ++ tempSuffix)

/-- What each name of each directory holds. -/
abbrev Files (δ : Type) := δ × List UInt8 → Option (List UInt8)

/-- The calls of a save that fail, with the kind of the error. A write that fails has written a part
of its bytes. -/
structure SaveFaults (κ : Type) where
  createTemp : Option κ
  writeTemp : Option (ℕ × κ)
  syncTemp : Option κ
  rename : Option κ
  removeTemp : Bool
  syncDir : Option κ

/-- The error of steps 4 to 6: the first that fails. -/
def SaveFaults.replaceError (faults : SaveFaults κ) : Option (FileError κ) :=
  (faults.writeTemp.map fun fault ↦ .io .writeTemp fault.2) <|>
    (faults.syncTemp.map (.io .syncTemp) <|> faults.rename.map (.io .rename))

structure Saved (δ κ : Type) where
  result : Result (FileError κ) Unit
  passed : List (Files δ)
  last : Files δ

/-- The states of a write of `written` to a file that was created. -/
def writing (files : Files δ) (temp : δ × List UInt8) (written : List UInt8) : List (Files δ) :=
  (List.range (written.length + 1)).map fun count ↦
    Function.update files temp (some (written.take count))

/-- `save_file`. -/
def saveFile (zstd : Zstd) (digest : Digest) (unix : Bool) (faults : SaveFaults κ)
    (files : Files δ) (path : SavePath δ) (kind : PayloadKind) (payload : List UInt8) : Saved δ κ :=
  match path.fileName with
  | none => ⟨.err .invalidPath, [], files⟩
  | some name =>
    match encodeEnvelope zstd digest kind payload with
    | .panic => ⟨.panic, [], files⟩
    | .err error => ⟨.err (.envelope error), [], files⟩
    | .ok envelope =>
      match faults.createTemp with
      | some cause => ⟨.err (.io .createTemp cause), [], files⟩
      | none =>
        let written := envelope.take (faults.writeTemp.elim envelope.length Prod.fst)
        let passed := files :: writing files (path.temp name) written
        match faults.replaceError with
        -- best effort: a removal that fails leaves the temporary file
        | some error => ⟨.err error, passed, Function.update files (path.temp name)
            (if faults.removeTemp then some written else none)⟩
        | none => ⟨(faults.syncDir.filter fun _ ↦ unix).elim (.ok ()) fun cause ↦
            .err (.io .syncDir cause), passed, Function.update
              (Function.update files (path.temp name) none) (path.parent, name) (some envelope)⟩

/-- `read_capped`. -/
def readCapped (contents : List UInt8) : Result (FileError κ) (List UInt8) :=
  let bytes := contents.take (maxEnvelopeBytes + 1)
  if maxEnvelopeBytes < bytes.length then .err (.envelope .inputTooLarge) else .ok bytes

/-- `load_file`, of a file that opens and reads when it is there. -/
def loadFile (zstd : Zstd) (digest : Digest) (fuel : ℕ) (notFound : κ) (files : Files δ)
    (place : δ × List UInt8) (expected : PayloadKind) : Result (FileError κ) (List UInt8) := do
  let contents ← .okOr (.io .openFile notFound) (files place)
  let bytes ← readCapped contents
  (decodeEnvelope zstd digest fuel expected bytes).mapErr .envelope

/-- A save replaced its destination: it returned, or only the sync of the directory failed. -/
def Replaced (result : Result (FileError κ) Unit) : Prop :=
  result = .ok () ∨ ∃ cause, result = .err (.io .syncDir cause)

variable {zstd : Zstd} {digest : Digest} {fuel : ℕ} {unix : Bool} {faults : SaveFaults κ}
  {files : Files δ} {path : SavePath δ} {kind : PayloadKind} {payload name : List UInt8}
  {place : δ × List UInt8}

/-- The errors of steps 4 to 6 precede the sync of the directory. -/
theorem not_replaced_replaceError {error : FileError κ} (herror : faults.replaceError = some error) :
    ¬Replaced (.err error) := by
  rintro (hok | ⟨cause, hsync⟩)
  · cases hok
  · cases hsync
    simp [SaveFaults.replaceError] at herror

/-- What a save does to the files other than its temporary one: all it passes through leaves them,
and so does its end, except for the envelope at the destination when it replaced that. -/
structure Saved.Settles (saved : Saved δ κ) (files : Files δ) (temp destination : δ × List UInt8)
    (encoded : Result EnvelopeError (List UInt8)) : Prop where
  passed : ∀ state ∈ saved.passed, ∀ place ≠ temp, state place = files place
  replaced : Replaced saved.result → ∃ envelope, encoded = .ok envelope ∧ saved.last =
    Function.update (Function.update files temp none) destination (some envelope)
  kept : ¬Replaced saved.result → ∀ place ≠ temp, saved.last place = files place

theorem settles_idle {result : Result (FileError κ) Unit} (hresult : ¬Replaced result)
    {temp destination : δ × List UInt8} {encoded : Result EnvelopeError (List UInt8)} :
    Saved.Settles ⟨result, [], files⟩ files temp destination encoded :=
  ⟨fun _ hstate ↦ absurd hstate List.not_mem_nil, fun hreplaced ↦ absurd hreplaced hresult,
    fun _ _ _ ↦ rfl⟩

theorem saveFile_settles (hname : path.fileName = some name) :
    (saveFile zstd digest unix faults files path kind payload).Settles files (path.temp name)
      (path.parent, name) (encodeEnvelope zstd digest kind payload) := by
  unfold saveFile
  rw [hname]
  dsimp only
  cases encodeEnvelope zstd digest kind payload with
  | panic => exact settles_idle (by simp [Replaced])
  | err error => exact settles_idle (by simp [Replaced])
  | ok envelope =>
    dsimp only
    generalize envelope.take _ = written
    have hwriting : ∀ state ∈ files :: writing files (path.temp name) written,
        ∀ place ≠ path.temp name, state place = files place := by
      intro state hstate place hplace
      rcases List.mem_cons.mp hstate with rfl | hstate
      · rfl
      · obtain ⟨count, -, rfl⟩ := List.mem_map.mp hstate
        exact Function.update_of_ne hplace _ _
    cases faults.createTemp with
    | some cause => exact settles_idle (by simp [Replaced])
    | none =>
      dsimp only
      cases herror : faults.replaceError with
      | some error =>
        have hleft := not_replaced_replaceError herror
        exact ⟨hwriting, fun hreplaced ↦ absurd hreplaced hleft,
          fun _ place hplace ↦ Function.update_of_ne hplace _ _⟩
      | none =>
        refine ⟨hwriting, fun _ ↦ ⟨envelope, rfl, rfl⟩, fun hnot ↦ absurd ?_ hnot⟩
        dsimp only
        cases faults.syncDir.filter fun _ ↦ unix with
        | none => exact .inl rfl
        | some cause => exact .inr ⟨cause, rfl⟩

omit [DecidableEq δ] in
theorem loadFile_of_encode (hfaithful : zstd.Faithful)
    (hdigest : ∀ front body, (digest front body).length = 32) (hfuel : maxPayloadBytes < fuel)
    {envelope : List UInt8} (notFound : κ)
    (hencode : encodeEnvelope zstd digest kind payload = .ok envelope)
    (hholds : files place = some envelope) :
    loadFile zstd digest fuel notFound files place kind = .ok payload := by
  have hpayload : payload.length ≤ maxPayloadBytes := by
    unfold encodeEnvelope at hencode
    obtain ⟨_, hbound, -⟩ := Result.bind_ok_iff.mp hencode
    exact not_lt.mp (Result.failIf_eq_ok_iff.mp hbound)
  obtain ⟨bytes, hbytes, hlength, hconsistent⟩ :=
    encodeEnvelope_consistent hfaithful hdigest kind hpayload
  rw [hencode] at hbytes
  cases hbytes
  have hread : readCapped envelope = (.ok envelope : Result (FileError κ) _) := by
    unfold readCapped
    rw [List.take_of_length_le (hlength.trans (Nat.le_succ _)), if_neg (not_lt.mpr hlength)]
  unfold loadFile
  rw [hholds, Result.bind_eq, Result.okOr, Result.ok_bind, Result.bind_eq, hread, Result.ok_bind,
    (decodeEnvelope_eq_ok_iff hdigest hfaithful.not_interrupted hfuel).mpr hconsistent]
  rfl

/-! ### Runs of saves -/

/-- A save of a run, and the state at which the process stops, when it stops before the end. -/
structure SaveAttempt (δ κ : Type) where
  unix : Bool
  faults : SaveFaults κ
  path : SavePath δ
  kind : PayloadKind
  payload : List UInt8
  stop : Option ℕ

def SaveAttempt.saved (zstd : Zstd) (digest : Digest) (files : Files δ)
    (attempt : SaveAttempt δ κ) : Saved δ κ :=
  saveFile zstd digest attempt.unix attempt.faults files attempt.path attempt.kind attempt.payload

def SaveAttempt.after (zstd : Zstd) (digest : Digest) (files : Files δ)
    (attempt : SaveAttempt δ κ) : Files δ :=
  let saved := attempt.saved zstd digest files
  (attempt.stop.bind fun index ↦ saved.passed[index]?).getD saved.last

theorem SaveAttempt.after_cases {attempt : SaveAttempt δ κ}
    (hplace : ∀ name, attempt.path.fileName = some name → place ≠ attempt.path.temp name) :
    attempt.after zstd digest files place = files place ∨ ∃ name envelope,
      attempt.path.fileName = some name ∧ (attempt.path.parent, name) = place ∧
      encodeEnvelope zstd digest attempt.kind attempt.payload = .ok envelope ∧
      attempt.after zstd digest files place = some envelope := by
  unfold SaveAttempt.after
  cases hname : attempt.path.fileName with
  | none =>
    left
    unfold SaveAttempt.saved saveFile
    rw [hname]
    cases attempt.stop <;> rfl
  | some name =>
    have hne := hplace name hname
    have hsettles : (attempt.saved zstd digest files).Settles _ _ _ _ := saveFile_settles hname
    generalize attempt.saved zstd digest files = saved at hsettles ⊢
    cases hstop : attempt.stop.bind fun index ↦ saved.passed[index]? with
    | some state =>
      obtain ⟨index, -, hindex⟩ := Option.bind_eq_some_iff.mp hstop
      exact .inl (hsettles.passed state (List.mem_of_getElem? hindex) place hne)
    | none =>
      rw [Option.getD_none]
      by_cases hreplaced : Replaced saved.result
      · obtain ⟨envelope, hencode, hlast⟩ := hsettles.replaced hreplaced
        rw [hlast]
        by_cases hdestination : place = (attempt.path.parent, name)
        · exact .inr ⟨name, envelope, rfl, hdestination.symm, hencode,
            hdestination ▸ Function.update_self _ _ _⟩
        · rw [Function.update_of_ne hdestination, Function.update_of_ne hne]
          exact .inl rfl
      · exact .inl (hsettles.kept hreplaced place hne)

/-- The save file. However many saves run, each with any failing calls and each stopped at any of
its states, a place that is no temporary file of theirs holds what it held before, or loads the
payload of a save to it. A save that is not stopped touches its destination and its temporary file
only; when it returns, or only the sync of the directory failed, its destination loads its payload
and its temporary file is gone, and otherwise its destination is what it was. Within the payload cap
and without a failing call it returns. Assumes: a faithful compression library, digests of 32 bytes,
and fuel past the payload cap. -/
theorem saves_untorn (hfaithful : zstd.Faithful)
    (hdigest : ∀ front body, (digest front body).length = 32) (hfuel : maxPayloadBytes < fuel)
    (notFound : κ) (files : Files δ) (attempts : List (SaveAttempt δ κ)) :
    (∀ place, (∀ attempt ∈ attempts, ∀ name, attempt.path.fileName = some name →
        place ≠ attempt.path.temp name) →
      attempts.foldl (SaveAttempt.after zstd digest) files place = files place ∨
      ∃ attempt ∈ attempts, ∃ name, attempt.path.fileName = some name ∧
        (attempt.path.parent, name) = place ∧ loadFile zstd digest fuel notFound
          (attempts.foldl (SaveAttempt.after zstd digest) files) place attempt.kind =
            .ok attempt.payload) ∧
    ∀ (unix : Bool) (faults : SaveFaults κ) (path : SavePath δ) kind payload name,
      path.fileName = some name →
      let saved := saveFile zstd digest unix faults files path kind payload
      (∀ place ≠ path.temp name, place ≠ (path.parent, name) →
        saved.last place = files place) ∧
      (Replaced saved.result → saved.last (path.temp name) = none ∧
        loadFile zstd digest fuel notFound saved.last (path.parent, name) kind = .ok payload) ∧
      (¬Replaced saved.result → saved.last (path.parent, name) = files (path.parent, name)) ∧
      (payload.length ≤ maxPayloadBytes → faults.createTemp = none →
        faults.replaceError = none → faults.syncDir = none → saved.result = .ok ()) := by
  refine ⟨fun place hplace ↦ ?_, fun unix faults path kind payload name hname ↦ ?_⟩
  · induction attempts using List.reverseRecOn with
    | nil => exact .inl rfl
    | append_singleton attempts attempt ih =>
      rw [List.foldl_append, List.foldl_cons, List.foldl_nil]
      generalize attempts.foldl (SaveAttempt.after zstd digest) files = before at ih ⊢
      rcases attempt.after_cases (hplace attempt (by simp)) with hsame | hnew
      · have hload (expected : PayloadKind) : loadFile zstd digest fuel notFound
            (attempt.after zstd digest before) place expected =
              loadFile zstd digest fuel notFound before place expected := by
          rw [loadFile, loadFile, hsame]
        rw [hsame]
        refine (ih fun other hother ↦ hplace other (by simp [hother])).imp_right ?_
        rintro ⟨other, hother, hloaded⟩
        exact ⟨other, by simp [hother], by simpa only [hload] using hloaded⟩
      · obtain ⟨name, envelope, hname, hdestination, hencode, hholds⟩ := hnew
        exact .inr ⟨attempt, by simp, name, hname, hdestination,
          loadFile_of_encode hfaithful hdigest hfuel notFound hencode hholds⟩
  · intro saved
    have hsettles : saved.Settles _ _ _ _ := saveFile_settles hname
    have htemp : path.temp name ≠ (path.parent, name) := fun heq ↦ by
      simpa [SavePath.temp, tempSuffix] using congrArg (List.length ∘ Prod.snd) heq
    refine ⟨fun place hplace hother ↦ ?_, fun hreplaced ↦ ?_,
      fun hnot ↦ hsettles.kept hnot _ htemp.symm, fun hpayload hcreate herror hsync ↦ ?_⟩
    · by_cases hreplaced : Replaced saved.result
      · obtain ⟨envelope, -, hlast⟩ := hsettles.replaced hreplaced
        rw [hlast, Function.update_of_ne hother, Function.update_of_ne hplace]
      · exact hsettles.kept hreplaced place hplace
    · obtain ⟨envelope, hencode, hlast⟩ := hsettles.replaced hreplaced
      rw [hlast, Function.update_of_ne htemp, Function.update_self]
      exact ⟨rfl, loadFile_of_encode hfaithful hdigest hfuel notFound hencode
        (Function.update_self _ _ _)⟩
    · obtain ⟨envelope, hencode, -⟩ := encodeEnvelope_consistent hfaithful hdigest kind hpayload
      show (saveFile zstd digest unix faults files path kind payload).result = _
      unfold saveFile
      rw [hname, hencode, hcreate, herror, hsync]
      rfl

/-- A save of three bytes, on files that hold nothing. -/
theorem saves_untorn_abc : (saveFile sampleZstd (fun _ _ ↦ abcStamp) true
    (⟨none, none, none, none, false, none⟩ : SaveFaults Unit) (fun _ ↦ none) ⟨(), some [97]⟩
      hostSaveKind abcPayload).result = .ok () :=
  ((saves_untorn faithful_sampleZstd (fun _ _ ↦ rfl : ∀ _ _, abcStamp.length = 32)
    (Nat.lt_succ_self maxPayloadBytes) () (fun _ ↦ none) ([] : List (SaveAttempt Unit Unit))).2
      true ⟨none, none, none, none, false, none⟩ ⟨(), some [97]⟩ hostSaveKind abcPayload [97]
        rfl).2.2.2 (by decide) rfl rfl rfl

end Crpg.Persist
