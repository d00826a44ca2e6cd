import Crpg.Edit.History
import Crpg.Core.Ulid
import Mathlib.Order.Fin.Basic

/-!
# Editor commands

`crpg-edit/src/command.rs`, `error.rs` and the part of `document.rs` that applies one command to the
working copy of a batch: the input caps, the resolution of targets, the protected documents and
members, the mutation, the document cap, the structural check and the rule of identities, in that
order.

Every structural decision belongs to `crpg-data`, which is the parameter `CampaignData`: the reader
and writer of documents, the structural check that derives the index, pointer edits, and the
semantic findings.
-/

set_option autoImplicit false

namespace Crpg.Edit

open Crpg.Core Crpg.Lib

/-! ### Data -/

inductive ObjectKind
  | campaign | world | area | creature | item | dialogue | quest | faction | placement | graph
  | node | dialogueNode | questState | ruleset | ability | outcomeTable | encounter | effect
deriving DecidableEq

structure IndexEntry where
  kind : ObjectKind
  path : SourcePath
  pointer : String
deriving DecidableEq

inductive PointerEdit
  | set (pointer : String) (value : List UInt8)
  | insert (pointer : String) (value : List UInt8)
  | remove (pointer : String)
deriving DecidableEq

inductive PointerEditError
  | pointerTooLong
  | invalidPointer
  | rootPointer
  | schemaTag
  | notFound
  | value (message : String)
  | document (message : String)
deriving DecidableEq

abbrev Index := BTreeMap Ulid IndexEntry

/-- What the editor calls of `crpg-data`. A failure of the writer, the index or an encoding is
given as the diagnostic the editor converts it to; the editor drops the reader's. -/
structure CampaignData where
  Document : Type
  Placement : Type
  Transform : Type
  Diagnostic : Type
  readDocument : List UInt8 → Option Document
  writeDocument : Document → Except Diagnostic (List UInt8)
  campaignIndex : BTreeMap SourcePath Document → Except Diagnostic Index
  editDocument : Document → PointerEdit → Except PointerEditError Document
  placementJson : Placement → Except Diagnostic (List UInt8)
  transformJson : Transform → Except Diagnostic (List UInt8)
  placementsDocument : Ulid → List Placement → Document
  isLock : Document → Bool
  invalidPath : String → Diagnostic
  validate : BTreeMap SourcePath Document → Index → List Diagnostic

inductive EditTarget
  | document (path : SourcePath)
  | object (id : Ulid)
deriving DecidableEq

inductive EditCommand (data : CampaignData)
  | createDocument (path : SourcePath) (document : data.Document)
  | deleteDocument (path : SourcePath)
  | renameDocument (source target : SourcePath)
  | setValue (target : EditTarget) (pointer : String) (value : List UInt8)
  | insertValue (target : EditTarget) (pointer : String) (value : List UInt8)
  | removeValue (target : EditTarget) (pointer : String)
  | deleteObject (id : Ulid)
  | placeInstance (area : Ulid) (placement : data.Placement)
  | movePlacement (placement : Ulid) (transform : data.Transform)

inductive EditLimit
  | pointer
  | value
  | document
deriving DecidableEq

inductive EditError (Diagnostic : Type)
  | invalid (diagnostic : Diagnostic)
  | batchSize (len : ℕ)
  | inputTooLarge (index : ℕ) (limit : EditLimit)
  | missingPath (index : ℕ) (path : SourcePath)
  | pathExists (index : ℕ) (path : SourcePath)
  | unknownObject (index : ℕ) (id : Ulid)
  | wrongKind (index : ℕ) (id : Ulid) (expected found : ObjectKind)
  | isProtected (index : ℕ) (path : SourcePath) (pointer : String)
  | pointer (index : ℕ) (path : SourcePath) (error : PointerEditError)
  | identityChanged (index : ℕ) (path : SourcePath) (id : Ulid)
  | rejected (index : ℕ) (diagnostic : Diagnostic)
  | historyTooLarge (bytes : ℕ)
  | nothingToUndo
  | nothingToRedo
  | staleSavePlan
  | historyCorrupt
deriving DecidableEq

def maxBatchCommands : ℕ := 1024

def maxPointerBytes : ℕ := 4096

def maxValueBytes : ℕ := 1048576

def maxDocumentBytes : ℕ := 4194304

def maxEditPointerBytes : ℕ := 8192

def lockPaths : List SourcePath := ["campaign.lock", "assets/assets.lock"]

def manifestPath : SourcePath := "campaign.json"

def manifestProtected : List String := ["package", "engine", "requires"]

/-! ### Pointers and paths -/

/-- `unescape` over the characters of a raw token. -/
def unescapeChars : List Char → Except PointerEditError (List Char)
  | [] => .ok []
  | '~' :: '0' :: rest => (unescapeChars rest).map ('~' :: ·)
  | '~' :: '1' :: rest => (unescapeChars rest).map ('/' :: ·)
  | '~' :: _ => .error .invalidPointer
  | char :: rest => (unescapeChars rest).map (char :: ·)

def unescape (raw : List Char) : Except PointerEditError String :=
  (unescapeChars raw).map String.ofList

def pointerTokens (pointer : String) : Except PointerEditError (List String) :=
  if maxEditPointerBytes < pointer.utf8ByteSize then .error .pointerTooLong
  else match pointer.toList with
    | [] => .ok []
    | '/' :: rest => (rest.splitOn '/').mapM unescape
    | _ => .error .invalidPointer

/-- A byte a path part may hold. -/
def isPathChar (char : Char) : Bool :=
  char.isAlphanum || char == '.' || char == '_' || char == '-'

/-- `SourcePath::from_str`. -/
def parsePath (text : String) : Option SourcePath :=
  if (text.toList.splitOn '/').all fun part ↦
      !part.isEmpty && part != ['.'] && part != ['.', '.'] && part.all isPathChar
  then some text else none

/-- `strip_suffix` with the empty text for a text without the suffix. -/
def stripSuffix (text suffix : String) : String :=
  if suffix.toList.isSuffixOf text.toList then
    String.ofList (text.toList.take (text.toList.length - suffix.toList.length))
  else ""

/-! ### The working copy -/

variable {data : CampaignData}

/-- `Working`: the batch's private copy. -/
structure Working (data : CampaignData) where
  documents : BTreeMap SourcePath data.Document
  index : Index
  canonical : Files

inductive Mutation (data : CampaignData)
  | insert (path : SourcePath) (document : data.Document)
  | remove (path : SourcePath)
  | rename (source target : SourcePath)
  | edit (path : SourcePath) (edit : PointerEdit) (relative : Option PointerEditError)
  | appendPlacement (path : SourcePath) (placement : data.Placement)
  | setTransform (path : SourcePath) (pointer : String) (transform : data.Transform)

def Mutation.touched : Mutation data → List SourcePath
  | .insert path _ | .remove path | .edit path _ _ | .appendPlacement path _
  | .setTransform path _ _ => [path]
  | .rename source target => [source, target]

inductive IdentityRule
  | unchecked
  | equal
  | grow
  | shrink
  | rename (source target : SourcePath)
deriving DecidableEq

structure Resolved (data : CampaignData) where
  mutation : Mutation data
  rule : IdentityRule
  manifestPointer : Option (SourcePath × String)

/-- What a step of a command answers. -/
abbrev Answer (data : CampaignData) := Except (EditError data.Diagnostic)

/-- `map_err` to `rejected`. -/
def orRejected {α : Type} (index : ℕ) : Except data.Diagnostic α → Answer data α
  | .ok value => .ok value
  | .error diagnostic => .error (.rejected index diagnostic)

/-- An early return of an error. -/
def refuseIf (test : Prop) [Decidable test] (error : EditError data.Diagnostic) :
    Answer data Unit :=
  if test then .error error else .ok ()

def checkCaps (index : ℕ) : EditCommand data → Answer data Unit
  | .setValue _ pointer value | .insertValue _ pointer value => do
    refuseIf (maxPointerBytes < pointer.utf8ByteSize) (.inputTooLarge index .pointer)
    refuseIf (maxValueBytes < value.length) (.inputTooLarge index .value)
  | .removeValue _ pointer =>
    refuseIf (maxPointerBytes < pointer.utf8ByteSize) (.inputTooLarge index .pointer)
  | .createDocument _ document => do
    let bytes ← orRejected index (data.writeDocument document)
    refuseIf (maxDocumentBytes < bytes.length) (.inputTooLarge index .document)
  | .deleteDocument _ | .renameDocument _ _ | .deleteObject _ | .placeInstance _ _
  | .movePlacement _ _ => .ok ()

def entry (work : Working data) (index : ℕ) (id : Ulid) : Answer data IndexEntry :=
  match work.index.get? id with
  | some found => .ok found
  | none => .error (.unknownObject index id)

def entryOfKind (work : Working data) (index : ℕ) (id : Ulid) (expected : ObjectKind) :
    Answer data IndexEntry := do
  let found ← entry work index id
  refuseIf (found.kind ≠ expected) (.wrongKind index id expected found.kind)
  return found

def existing (work : Working data) (index : ℕ) (path : SourcePath) : Answer data Unit :=
  if work.documents.contains path then .ok () else .error (.missingPath index path)

def unused (work : Working data) (index : ℕ) (path : SourcePath) : Answer data Unit :=
  if work.documents.contains path then .error (.pathExists index path) else .ok ()

/-- `.err()` of a decoding. -/
def errorOf {α : Type} : Except PointerEditError α → Option PointerEditError
  | .ok _ => none
  | .error error => some error

def resolveTarget (work : Working data) (index : ℕ) (target : EditTarget) (pointer : String) :
    Answer data (SourcePath × String × Option PointerEditError) :=
  match target with
  | .document path => do
    existing work index path
    return (path, pointer, none)
  | .object id => do
    let found ← entry work index id
    return (found.path, found.pointer ++ pointer, errorOf (pointerTokens pointer))

def pointerCommand (work : Working data) (index : ℕ) (target : EditTarget) (pointer : String)
    (make : String → PointerEdit) (rule : IdentityRule) : Answer data (Resolved data) := do
  let (path, absolute, relative) ← resolveTarget work index target pointer
  return ⟨.edit path (make absolute) relative, rule,
    if path = manifestPath then some (path, absolute) else none⟩

def resolve (work : Working data) (index : ℕ) : EditCommand data → Answer data (Resolved data)
  | .createDocument path document => do
    unused work index path
    return ⟨.insert path document, .unchecked, none⟩
  | .deleteDocument path => do
    existing work index path
    return ⟨.remove path, .shrink, none⟩
  | .renameDocument source target => do
    existing work index source
    unused work index target
    return ⟨.rename source target, .rename source target, none⟩
  | .setValue target pointer value =>
    pointerCommand work index target pointer (fun pointer ↦ .set pointer value) .equal
  | .insertValue target pointer value =>
    pointerCommand work index target pointer (fun pointer ↦ .insert pointer value) .grow
  | .removeValue target pointer =>
    pointerCommand work index target pointer (fun pointer ↦ .remove pointer) .shrink
  | .deleteObject id => do
    let found ← entry work index id
    let mutation : Mutation data :=
      if found.pointer = "" then .remove found.path
      else .edit found.path (.remove found.pointer) none
    return ⟨mutation, .shrink, none⟩
  | .placeInstance area placement => do
    let found ← entryOfKind work index area .area
    let text := stripSuffix found.path "area.json" ++ "placements.json"
    match parsePath text with
    | none => .error (.rejected index (data.invalidPath text))
    | some path =>
      let mutation : Mutation data :=
        if work.documents.contains path then .appendPlacement path placement
        else .insert path (data.placementsDocument area [placement])
      return ⟨mutation, .grow, none⟩
  | .movePlacement placement transform => do
    let found ← entryOfKind work index placement .placement
    return ⟨.setTransform found.path (found.pointer ++ "/transform") transform, .equal, none⟩

/-- The manifest part of `check_protection`. -/
def manifestGuard (index : ℕ) : Option (SourcePath × String) → Answer data Unit
  | none => .ok ()
  | some (path, pointer) =>
    match pointerTokens pointer with
    | .ok (first :: _) =>
      refuseIf (first ∈ manifestProtected) (.isProtected index path pointer)
    | _ => .ok ()

/-- The lock part of `check_protection`. -/
def lockGuard (index : ℕ) : Mutation data → Answer data Unit
  | .insert path document => refuseIf (data.isLock document = true) (.isProtected index path "")
  | _ => .ok ()

def checkProtection (index : ℕ) (resolved : Resolved data) : Answer data Unit := do
  match resolved.mutation.touched.find? fun path ↦ path ∈ lockPaths with
  | some path => .error (.isProtected index path "")
  | none =>
    lockGuard index resolved.mutation
    manifestGuard index resolved.manifestPointer

def editInPlace (work : Working data) (index : ℕ) (path : SourcePath) (edit : PointerEdit) :
    Answer data (Working data) :=
  match work.documents.get? path with
  | none => .error (.missingPath index path)
  | some document =>
    match data.editDocument document edit with
    | .ok edited => .ok { work with documents := work.documents.insert path edited }
    | .error error => .error (.pointer index path error)

def mutate (work : Working data) (index : ℕ) : Mutation data → Answer data (Working data)
  | .insert path document => .ok { work with documents := work.documents.insert path document }
  | .remove path => .ok { work with documents := work.documents.erase path }
  | .rename source target =>
    match work.documents.get? source with
    | some document =>
      .ok { work with documents := (work.documents.erase source).insert target document }
    | none => .ok work
  | .edit path edit relative =>
    match relative with
    | some error => .error (.pointer index path error)
    | none => editInPlace work index path edit
  | .appendPlacement path placement => do
    let value ← orRejected index (data.placementJson placement)
    editInPlace work index path (.insert "/placements/-" value)
  | .setTransform path pointer transform => do
    let value ← orRejected index (data.transformJson transform)
    editInPlace work index path (.set pointer value)

/-- Step 5 of `apply_one` for one touched path. -/
def writeTouched (index : ℕ) (work : Working data) (path : SourcePath) :
    Answer data (Working data) :=
  match work.documents.get? path with
  | some document => do
    let bytes ← orRejected index (data.writeDocument document)
    refuseIf (maxDocumentBytes < bytes.length) (.inputTooLarge index .document)
    return { work with canonical := work.canonical.insert path bytes }
  | none => .ok { work with canonical := work.canonical.erase path }

def identities (index : Index) (path : SourcePath) : List (Ulid × ObjectKind) :=
  (index.entries.filter fun entry ↦ entry.2.path = path).map fun entry ↦ (entry.1, entry.2.kind)

/-- `smallest_changed`: the least id of a pair that one of two sets lacks. -/
def smallestChanged (old new : List (Ulid × ObjectKind)) : Option Ulid :=
  ((old.filter fun pair ↦ pair ∉ new) ++ new.filter fun pair ↦ pair ∉ old).map Prod.fst |>.min?

def keepsRule (rule : IdentityRule) (old new : List (Ulid × ObjectKind)) : Bool :=
  match rule with
  | .grow => old.all (· ∈ new)
  | .shrink => new.all (· ∈ old)
  | .unchecked | .equal | .rename _ _ => old.all (· ∈ new) && new.all (· ∈ old)

/-- The pairs of paths whose identities `check_identity` compares. -/
def identityPairs (rule : IdentityRule) (touched : List SourcePath) :
    List (SourcePath × SourcePath) :=
  match rule with
  | .unchecked => []
  | .rename source target => [(source, target)]
  | .equal | .grow | .shrink => touched.map fun path ↦ (path, path)

def checkIdentity (oldIndex newIndex : Index) (index : ℕ) (rule : IdentityRule)
    (touched : List SourcePath) : Answer data Unit :=
  (identityPairs rule touched).forM fun pair ↦
    let old := identities oldIndex pair.1
    let new := identities newIndex pair.2
    if keepsRule rule old new then .ok ()
    else match smallestChanged old new with
      | some id => .error (.identityChanged index pair.2 id)
      | none => .ok ()

def applyOne (work : Working data) (index : ℕ) (command : EditCommand data) :
    Answer data (Working data) := do
  checkCaps index command
  let resolved ← resolve work index command
  checkProtection index resolved
  let mutated ← mutate work index resolved.mutation
  let written ← resolved.mutation.touched.foldlM (writeTouched index) mutated
  let newIndex ← orRejected index (data.campaignIndex written.documents)
  checkIdentity work.index newIndex index resolved.rule resolved.mutation.touched
  return { written with index := newIndex }

end Crpg.Edit
