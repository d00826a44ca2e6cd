import Crpg.Edit.CampaignIndex

/-!
# Collecting a campaign

Two walks of a campaign directory, `collect_campaign` of `crpg-godot/src/core/authority.rs` and
`collect_campaign_files_with` of `crpg-cli/src/main.rs`, and `campaign_document_path` of
`validation.rs`, which tells both what a document is. A walk lists a directory, sorts the names by
their bytes and takes the entries in that order, a subdirectory before its next sibling.

`visits` is that order with what each entry comes to. Each walk is one run over it
(`Bridge.collectCampaign_eq`, `Cli.collectCampaignFilesWith_eq`), so both stop where it first stops.
`Stands` says which entries there are, and `mem_below_of_stands` that every one of them is visited.
-/

set_option autoImplicit false

namespace Crpg.Edit

open Crpg.Lib

/-! ### The classifier -/

/-- `DataError::InvalidPath`. -/
structure InvalidPath where
  value : String
deriving DecidableEq

/-- The paths the classifier accepts, before their text is checked. -/
def isCandidate (value : String) : Bool :=
  value == "campaign.json" || value == "campaign.lock" || value == "assets/assets.lock" ||
    value == "variables/campaign_state.json" || isFamily value "worlds/" ||
    isFamily value "creatures/" || isFamily value "items/" || isFamily value "dialogue/" ||
    isFamily value "quests/" || isFamily value "factions/" || isFamily value "scripts/graphs/" ||
    isFamily value "rulesets/" || isFamily value "abilities/" ||
    isFamily value "outcome_tables/" || isFamily value "encounters/" ||
    isFamily value "effects/" || isAreaFile value "area.json" ||
    isAreaFile value "placements.json" || isAreaFile value "triggers.json" || isLocaleShape value

def campaignDocumentPath (value : String) : Except InvalidPath (Option SourcePath) :=
  if isCandidate value = false then .ok none
  else match parsePath value with
    | some path => .ok (some path)
    | none => .error ⟨value⟩

variable {value logical : String} {path : SourcePath}

theorem campaignDocumentPath_eq_ok_some_iff : campaignDocumentPath value = .ok (some path) ↔
      isCandidate value = true ∧ parsePath value = some path := by
  unfold campaignDocumentPath
  by_cases hcandidate : isCandidate value = true
  · cases hparse : parsePath value with
    | none => simp [hcandidate]
    | some parsed => simp [hcandidate]
  · simp [hcandidate]

section Layout

variable {types : ManifestTypes} {Rest : Type}

theorem checkLayout_single (path : SourcePath) (document : Document types Rest) :
    checkLayout (BTreeMap.empty.insert path document) = .ok () ↔
      (document.matchesPath path && document.fitsReserved path) = true := by
  have hentries : (BTreeMap.empty.insert path document).entries = [(path, document)] := rfl
  unfold checkLayout
  rw [hentries, List.find?_singleton]
  by_cases hfits : (document.matchesPath path && document.fitsReserved path) = true
  · simp [hfits]
  · simp [hfits]

theorem isCandidate_of_matchesPath {document : Document types Rest}
    (hplaced : document.matchesPath path = true) : isCandidate path = true := by
  cases document with
  | campaign _ =>
    simp only [Document.matchesPath, manifestPath] at hplaced
    simp [isCandidate, hplaced]
  | other contents rest =>
    cases contents with
    | root kind id =>
      cases kind <;> simp_all [Document.matchesPath, Contents.matchesPath, RootKind.matchesPath,
        isCandidate]
    | _ => simp_all [Document.matchesPath, Contents.matchesPath, isCandidate]

/-- What a document other than the manifest may declare fits a path the classifier accepts. -/
theorem exists_contents_of_isCandidate (hcandidate : isCandidate path = true)
    (hmanifest : path ≠ "campaign.json") : ∃ contents : Contents, contents.matchesPath path = true ∧
      (path = "campaign.lock" → contents = .campaignLock) ∧
        (path = "assets/assets.lock" → contents = .assetsLock) := by
  by_cases hlock : path = "campaign.lock"
  · exact ⟨.campaignLock, by simp [Contents.matchesPath, hlock], fun _ ↦ rfl, by simp [hlock]⟩
  by_cases hassets : path = "assets/assets.lock"
  · exact ⟨.assetsLock, by simp [Contents.matchesPath, hassets], by simp [hassets], fun _ ↦ rfl⟩
  suffices hsome : ∃ contents : Contents, contents.matchesPath path = true by
    obtain ⟨contents, hcontents⟩ := hsome
    exact ⟨contents, hcontents, fun h ↦ absurd h hlock, fun h ↦ absurd h hassets⟩
  have hroot : ∀ kind : RootKind, kind.matchesPath path = true →
      ∃ contents : Contents, contents.matchesPath path = true :=
    fun kind hkind ↦ ⟨.root kind 0, hkind⟩
  simp only [isCandidate, Bool.or_eq_true, beq_iff_eq, hmanifest, hlock, hassets, false_or]
    at hcandidate
  rcases hcandidate with (((((((((((((((hvariables | hworld) | hcreature) | hitem) | hdialogue) |
    hquest) | hfaction) | hgraph) | hruleset) | hability) | htable) | hencounter) | heffect) |
    harea) | hplacements) | htriggers) | hlocale
  · exact ⟨.variableTable, by simp [Contents.matchesPath, hvariables]⟩
  · exact hroot .world hworld
  · exact hroot .creature hcreature
  · exact hroot .item hitem
  · exact ⟨.dialogue 0 [], hdialogue⟩
  · exact ⟨.quest 0 [], hquest⟩
  · exact hroot .faction hfaction
  · exact ⟨.graph ⟨0, []⟩, hgraph⟩
  · exact hroot .ruleset hruleset
  · exact hroot .ability hability
  · exact hroot .outcomeTable htable
  · exact hroot .encounter hencounter
  · exact hroot .effect heffect
  · exact hroot .area harea
  · exact ⟨.placements [], hplacements⟩
  · exact ⟨.triggers [], htriggers⟩
  · have hshape := hlocale
    simp only [isLocaleShape, Option.any_eq_true] at hshape
    obtain ⟨stem, hstem, -⟩ := hshape
    exact ⟨.locale (String.ofList stem), by simp [Contents.matchesPath, hlocale, hstem]⟩

theorem isCandidate_iff (manifest : Campaign types) (rest : Rest) :
    isCandidate path = true ↔ ∃ document : Document types Rest,
      checkLayout (BTreeMap.empty.insert path document) = .ok () := by
  simp only [checkLayout_single, Bool.and_eq_true]
  constructor
  · intro hcandidate
    by_cases hmanifest : path = "campaign.json"
    · exact ⟨.campaign manifest, by simp [Document.matchesPath, manifestPath, hmanifest],
        by simp [Document.fitsReserved, manifestPath, hmanifest]⟩
    · obtain ⟨contents, hcontents, hlock, hassets⟩ :=
        exists_contents_of_isCandidate hcandidate hmanifest
      refine ⟨.other contents rest, hcontents, ?_⟩
      unfold Document.fitsReserved manifestPath
      rw [if_neg hmanifest]
      split_ifs with hisLock hisAssets
      · rw [hlock hisLock]
      · rw [hassets hisAssets]
      · rfl
  · intro ⟨_, hplaced, _⟩
    exact isCandidate_of_matchesPath hplaced

end Layout

/-! ### The disk -/

/-- `OsString`: a name is Unicode text or other bytes. -/
inductive OsName
  | unicode (text : String)
  | other (bytes : List UInt8)
deriving DecidableEq

/-- `as_encoded_bytes`. -/
def OsName.encodedBytes : OsName → List UInt8
  | .unicode text => text.toUTF8.data.toList
  | .other bytes => bytes

def OsName.toStr : OsName → Option String
  | .unicode text => some text
  | .other _ => none

/-- `Path`: the components of a path, from the root of the disk or from the working directory. -/
structure DiskPath where
  rooted : Bool
  parts : List OsName
deriving DecidableEq

namespace DiskPath

/-- `join` with a name. -/
def join (path : DiskPath) (name : OsName) : DiskPath :=
  { path with parts := path.parts ++ [name] }

/-- `ancestors`: the path, its parent, and so on. -/
def ancestors (path : DiskPath) : List DiskPath :=
  path.parts.inits.reverse.map fun parts ↦ { path with parts := parts }

/-- `as_os_str().is_empty()`. -/
def isEmpty (path : DiskPath) : Bool := !path.rooted && path.parts.isEmpty

/-- `to_str().is_some()`. -/
def isUnicode (path : DiskPath) : Bool := path.parts.all fun name ↦ name.toStr.isSome

end DiskPath

inductive EntryKind
  | directory
  | file
  | symlink
  | other
deriving DecidableEq

/-- `std::io::ErrorKind`, as far as the walks tell errors apart. -/
inductive ErrorKind
  | notFound
  | permissionDenied
  | other
deriving DecidableEq

/-- `WalkFs`, the operations of both walks. A name in a directory is one component, and directories
are nested finitely deep: links are not followed. -/
structure WalkFs where
  metadata : DiskPath → Except ErrorKind EntryKind
  readDirNames : DiskPath → Except ErrorKind (List OsName)
  readFile : DiskPath → Except ErrorKind (List UInt8)
  component : ∀ (dir : DiskPath) (names : List OsName) (text : String),
    readDirNames dir = .ok names → .unicode text ∈ names → text ≠ "" ∧ '/' ∉ text.toList
  height : DiskPath → ℕ
  height_lt : ∀ (dir : DiskPath) (names : List OsName) (name : OsName),
    readDirNames dir = .ok names → name ∈ names → metadata (dir.join name) = .ok .directory →
    height (dir.join name) < height dir

/-- Whether a name can stand in a directory. -/
def OsName.isComponent : OsName → Bool
  | .unicode text => text ≠ "" && '/' ∉ text.toList
  | .other _ => true

/-- The names of a directory, of a disk that is given by the paths of its files. -/
def namesBelow (files : List (List OsName × List UInt8)) (dir : List OsName) : List OsName :=
  (files.filterMap fun file ↦ if dir.isPrefixOf file.1 then file.1[dir.length]? else none).dedup

theorem mem_namesBelow {files : List (List OsName × List UInt8)} {dir : List OsName} {name : OsName}
    (hname : name ∈ namesBelow files dir) :
    ∃ file ∈ files, name ∈ file.1 ∧ dir.length < file.1.length := by
  obtain ⟨file, hfile, hfound⟩ := List.mem_filterMap.mp (List.mem_dedup.mp hname)
  split_ifs at hfound
  obtain ⟨hlength, rfl⟩ := List.getElem?_eq_some_iff.mp hfound
  exact ⟨file, hfile, List.getElem_mem _, hlength⟩

def deepest (files : List (List OsName × List UInt8)) : ℕ :=
  files.foldr (fun file depth ↦ max file.1.length depth) 0

theorem length_le_deepest {files : List (List OsName × List UInt8)} {file : List OsName × List UInt8}
    (hfile : file ∈ files) : file.1.length ≤ deepest files := by
  induction files with
  | nil => cases hfile
  | cons head rest ih =>
    obtain rfl | hrest := List.mem_cons.mp hfile
    · exact le_max_left _ _
    · exact (ih hrest).trans (le_max_right _ _)

/-- The disk that holds some files, each in the directories of its path. -/
def WalkFs.ofFiles (files : List (List OsName × List UInt8))
    (hnames : (files.all fun file ↦ file.1.all OsName.isComponent) = true) : WalkFs where
  metadata path :=
    if files.any fun file ↦ file.1 = path.parts then .ok .file
    else if namesBelow files path.parts = [] then .error .notFound
    else .ok .directory
  readDirNames path := .ok (namesBelow files path.parts)
  readFile path :=
    match files.find? fun file ↦ file.1 = path.parts with
    | some file => .ok file.2
    | none => .error .notFound
  component dir names text hread hname := by
    cases hread
    obtain ⟨file, hfile, hpart, -⟩ := mem_namesBelow hname
    simpa [OsName.isComponent] using List.all_eq_true.mp (List.all_eq_true.mp hnames _ hfile) _ hpart
  height path := deepest files - path.parts.length
  height_lt dir names name hread hname _ := by
    cases hread
    obtain ⟨file, hfile, -, hlength⟩ := mem_namesBelow hname
    have hdeepest := length_le_deepest hfile
    simp only [DiskPath.join, List.length_append, List.length_singleton]
    omega

/-- `names.sort_by`. -/
def sortNames (names : List OsName) : List OsName :=
  names.mergeSort fun first second ↦ first.encodedBytes ≤ second.encodedBytes

/-- The logical path of a name in a directory. -/
def joinLogical (logicalDir text : String) : String :=
  if logicalDir = "" then text else logicalDir ++ "/" ++ text

/-! ### The walk of the bridge -/

namespace Bridge

/-- `BridgeCode`, of a walk. -/
inductive BridgeCode
  | campaignIo
  | campaignInvalid
deriving DecidableEq

structure Fault where
  code : BridgeCode
  detail : String
deriving DecidableEq

def ioFault (code : BridgeCode) (op logical : String) : Fault := ⟨code, op ++ " " ++ logical⟩

/-- One turn of `check_walk_root_ancestors`. -/
def checkAncestor (fs : WalkFs) (ancestor : DiskPath) : Result Fault Unit :=
  if ancestor.isEmpty = true then .ok ()
  else match fs.metadata ancestor with
    | .error _ => .err (ioFault .campaignIo "open root" "<campaign-root>")
    | .ok .directory => .ok ()
    | .ok .symlink => .err (ioFault .campaignIo "open root" "<campaign-root>")
    | .ok .file | .ok .other => .err (ioFault .campaignIo "open root" "<campaign-root>")

def checkWalkRootAncestors (fs : WalkFs) (root : DiskPath) : Result Fault Unit :=
  Result.forM (checkAncestor fs) (root.ancestors.drop 1).reverse

def collectFileEntry (fs : WalkFs) (diskPath : DiskPath) (logical : String) (kind : EntryKind)
    (files : Files) : Result Fault Files :=
  match campaignDocumentPath logical with
  | .error _ => .err (ioFault .campaignInvalid "classify" logical)
  | .ok none => .ok files
  | .ok (some path) =>
    match kind with
    | .file =>
      match fs.readFile diskPath with
      | .ok bytes => .ok (files.insert path bytes)
      | .error _ => .err (ioFault .campaignIo "read" logical)
    | .symlink => .err (ioFault .campaignIo "classify" logical)
    | .directory | .other => .err (ioFault .campaignIo "classify" logical)

/-- `collect_into`, with fuel for the nesting below the directory. -/
def collectInto (fs : WalkFs) : ℕ → DiskPath → String → Files → Result Fault Files
  | 0, _, _, _ => .panic
  | fuel + 1, diskDir, logicalDir, files =>
    match fs.readDirNames diskDir with
    | .error _ => .err (ioFault .campaignIo "list"
        (if logicalDir = "" then "<campaign-root>" else logicalDir))
    | .ok names =>
      Result.foldlM (fun files name ↦
        match name.toStr with
        | none => .err (ioFault .campaignIo "list" "<campaign-root>")
        | some text =>
          match fs.metadata (diskDir.join name) with
          | .error _ => .err (ioFault .campaignIo "classify" (joinLogical logicalDir text))
          | .ok .directory =>
            collectInto fs fuel (diskDir.join name) (joinLogical logicalDir text) files
          | .ok kind =>
            collectFileEntry fs (diskDir.join name) (joinLogical logicalDir text) kind files)
        files (sortNames names)

def collectCampaign (fs : WalkFs) (root : DiskPath) : Result Fault Files :=
  if root.isUnicode = false then .err (ioFault .campaignIo "open root" "<campaign-root>")
  else do
    checkWalkRootAncestors fs root
    match fs.metadata root with
    | .error _ => .err (ioFault .campaignIo "open root" "<campaign-root>")
    | .ok .directory => collectInto fs (fs.height root + 1) root "" .empty
    | .ok .symlink | .ok .file | .ok .other =>
      .err (ioFault .campaignIo "open root" "<campaign-root>")

end Bridge

/-! ### The walk of the command line -/

namespace Cli

inductive IoKind
  | notFound
  | notADirectory
  | permissionDenied
  | symlinkAtDocumentPath
  | nonUnicodeComponent
  | ioError
  | sourceChanged
  | notAFile
deriving DecidableEq

def ioKind : ErrorKind → IoKind
  | .notFound => .notFound
  | .permissionDenied => .permissionDenied
  | .other => .ioError

inductive Severity
  | error
  | warning
deriving DecidableEq

/-- `DiagnosticCode`, of a walk. -/
inductive DiagnosticCode
  | io
  | invalidPath
deriving DecidableEq

/-- A message before it is rendered, as `cannot op logical: kind` or `invalid source path: value`.
-/
inductive Message
  | cannot (op logical : String) (kind : IoKind)
  | invalidSourcePath (value : String)
deriving DecidableEq

structure Diagnostic where
  file : Option SourcePath
  pointer : String
  severity : Severity
  code : DiagnosticCode
  message : Message
  suggestedFix : Option String
deriving DecidableEq

def ioDiagnostic (op : String) (file : Option SourcePath) (logical : String) (kind : IoKind) :
    Diagnostic :=
  ⟨file, "", .error, .io, .cannot op logical kind, none⟩

/-- `diagnostic_for_data_error`, of an invalid path. -/
def diagnosticForDataError (error : InvalidPath) : Diagnostic :=
  ⟨none, "", .error, .invalidPath, .invalidSourcePath error.value, none⟩

/-- One turn of `check_walk_root_ancestors`. -/
def checkAncestor (fs : WalkFs) (ancestor : DiskPath) : Result Diagnostic Unit :=
  if ancestor.isEmpty = true then .ok ()
  else match fs.metadata ancestor with
    | .error error => .err (ioDiagnostic "open root" none "<campaign-root>" (ioKind error))
    | .ok .directory => .ok ()
    | .ok .symlink =>
      .err (ioDiagnostic "open root" none "<campaign-root>" .symlinkAtDocumentPath)
    | .ok .file | .ok .other =>
      .err (ioDiagnostic "open root" none "<campaign-root>" .notADirectory)

def checkWalkRootAncestors (fs : WalkFs) (root : DiskPath) : Result Diagnostic Unit :=
  Result.forM (checkAncestor fs) (root.ancestors.drop 1).reverse

/-- `CollectedCampaign`: the documents, and the paths of all regular files seen. -/
abbrev CollectedCampaign := Files × List DiskPath

def collectFileEntry (fs : WalkFs) (diskPath : DiskPath) (logical : String) (kind : EntryKind)
    (collected : CollectedCampaign) : Result Diagnostic CollectedCampaign :=
  let regularPaths :=
    if kind = .file then collected.2 ++ [diskPath] else collected.2
  match campaignDocumentPath logical with
  | .error error => .err (diagnosticForDataError error)
  | .ok none => .ok (collected.1, regularPaths)
  | .ok (some path) =>
    match kind with
    | .file =>
      match fs.readFile diskPath with
      | .ok bytes => .ok (collected.1.insert path bytes, regularPaths)
      | .error error => .err (ioDiagnostic "read" (some path) logical (ioKind error))
    | .symlink => .err (ioDiagnostic "classify" (some path) logical .symlinkAtDocumentPath)
    | .directory | .other => .err (ioDiagnostic "classify" (some path) logical .ioError)

/-- `collect_into`, with fuel for the nesting below the directory. -/
def collectInto (fs : WalkFs) :
    ℕ → DiskPath → String → CollectedCampaign → Result Diagnostic CollectedCampaign
  | 0, _, _, _ => .panic
  | fuel + 1, diskDir, logicalDir, collected =>
    match fs.readDirNames diskDir with
    | .error error => .err (ioDiagnostic "list" none
        (if logicalDir = "" then "<campaign-root>" else logicalDir) (ioKind error))
    | .ok names =>
      Result.foldlM (fun collected name ↦
        match name.toStr with
        | none => .err (ioDiagnostic "list" none "<campaign-root>" .nonUnicodeComponent)
        | some text =>
          match fs.metadata (diskDir.join name) with
          | .error error =>
            .err (ioDiagnostic "classify" none (joinLogical logicalDir text) (ioKind error))
          | .ok .directory =>
            collectInto fs fuel (diskDir.join name) (joinLogical logicalDir text) collected
          | .ok kind =>
            collectFileEntry fs (diskDir.join name) (joinLogical logicalDir text) kind collected)
        collected (sortNames names)

def collectCampaignFilesAndPathsWith (fs : WalkFs) (root : DiskPath) :
    Result Diagnostic CollectedCampaign :=
  if root.isUnicode = false then
    .err (ioDiagnostic "open root" none "<campaign-root>" .nonUnicodeComponent)
  else do
    checkWalkRootAncestors fs root
    match fs.metadata root with
    | .error error => .err (ioDiagnostic "open root" none "<campaign-root>" (ioKind error))
    | .ok .directory => collectInto fs (fs.height root + 1) root "" (.empty, [])
    | .ok .symlink =>
      .err (ioDiagnostic "open root" none "<campaign-root>" .symlinkAtDocumentPath)
    | .ok .file | .ok .other =>
      .err (ioDiagnostic "open root" none "<campaign-root>" .notADirectory)

def collectCampaignFilesWith (fs : WalkFs) (root : DiskPath) : Result Diagnostic Files := do
  let collected ← collectCampaignFilesAndPathsWith fs root
  .ok collected.1

end Cli

/-! ### The order of a walk -/

/-- Why a walk stops: the disk, or the classifier. -/
inductive Cause
  | disk (op : String) (file : Option SourcePath) (logical : String) (kind : Cli.IoKind)
  | classifier (logical : String) (error : InvalidPath)
      (refused : campaignDocumentPath logical = .error error)

def Cause.fault : Cause → Bridge.Fault
  | .disk op _ logical _ => Bridge.ioFault .campaignIo op logical
  | .classifier logical _ _ => Bridge.ioFault .campaignInvalid "classify" logical

/-- A cause as the command line reports it. -/
def Cause.diagnostic : Cause → Cli.Diagnostic
  | .disk op file logical kind => Cli.ioDiagnostic op file logical kind
  | .classifier _ error _ => Cli.diagnosticForDataError error

/-- What an entry comes to. -/
inductive VisitOutcome
  | passed
  | document (path : SourcePath) (bytes : List UInt8)
  | stopped (cause : Cause)

def fileOutcome (fs : WalkFs) (diskPath : DiskPath) (logical : String) (kind : EntryKind) :
    VisitOutcome :=
  match hclass : campaignDocumentPath logical with
  | .error error => .stopped (.classifier logical error hclass)
  | .ok none => .passed
  | .ok (some path) =>
    match kind with
    | .file =>
      match fs.readFile diskPath with
      | .ok bytes => .document path bytes
      | .error error => .stopped (.disk "read" (some path) logical (Cli.ioKind error))
    | .symlink => .stopped (.disk "classify" (some path) logical .symlinkAtDocumentPath)
    | .directory | .other => .stopped (.disk "classify" (some path) logical .ioError)

def rootOutcome (fs : WalkFs) (diskPath : DiskPath) : VisitOutcome :=
  match fs.metadata diskPath with
  | .error error => .stopped (.disk "open root" none "<campaign-root>" (Cli.ioKind error))
  | .ok .directory => .passed
  | .ok .symlink => .stopped (.disk "open root" none "<campaign-root>" .symlinkAtDocumentPath)
  | .ok .file | .ok .other =>
    .stopped (.disk "open root" none "<campaign-root>" .notADirectory)

/-- An entry in the order of a walk, with what it comes to. -/
structure Visit where
  entry : DiskPath
  outcome : VisitOutcome

def visitName (fs : WalkFs) (inside : DiskPath → String → List Visit) (diskDir : DiskPath)
    (logicalDir : String) (name : OsName) : List Visit :=
  match name.toStr with
  | none => [⟨diskDir.join name,
      .stopped (.disk "list" none "<campaign-root>" .nonUnicodeComponent)⟩]
  | some text =>
    match fs.metadata (diskDir.join name) with
    | .error error => [⟨diskDir.join name,
        .stopped (.disk "classify" none (joinLogical logicalDir text) (Cli.ioKind error))⟩]
    | .ok .directory =>
      ⟨diskDir.join name, .passed⟩ :: inside (diskDir.join name) (joinLogical logicalDir text)
    | .ok kind => [⟨diskDir.join name,
        fileOutcome fs (diskDir.join name) (joinLogical logicalDir text) kind⟩]

/-- The entries below a directory in sorted depth-first order, a directory before what it holds. -/
def below (fs : WalkFs) : ℕ → DiskPath → String → List Visit
  | 0, _, _ => []
  | fuel + 1, diskDir, logicalDir =>
    match fs.readDirNames diskDir with
    | .error error => [⟨diskDir, .stopped (.disk "list" none
        (if logicalDir = "" then "<campaign-root>" else logicalDir) (Cli.ioKind error))⟩]
    | .ok names => (sortNames names).flatMap (visitName fs (below fs fuel) diskDir logicalDir)

def visits (fs : WalkFs) (root : DiskPath) : List Visit :=
  if root.isUnicode = false then
    [⟨root, .stopped (.disk "open root" none "<campaign-root>" .nonUnicodeComponent)⟩]
  else
    (((root.ancestors.drop 1).reverse.filter fun ancestor ↦ !ancestor.isEmpty) ++ [root]).map
        (fun diskPath ↦ ⟨diskPath, rootOutcome fs diskPath⟩) ++
      below fs (fs.height root + 1) root ""

/-! ### A run over the order -/

section Gather

variable {ε : Type} (fail : Cause → ε)

def take (files : Files) (visit : Visit) : Result ε Files :=
  match visit.outcome with
  | .passed => .ok files
  | .document path bytes => .ok (files.insert path bytes)
  | .stopped cause => .err (fail cause)

def gather (files : Files) (order : List Visit) : Result ε Files :=
  Result.foldlM (take fail) files order

/-- A visit that does not stop the walk. -/
def Visit.Passes (visit : Visit) : Prop := ∀ cause, visit.outcome ≠ .stopped cause

def Visit.document? (visit : Visit) : Option (SourcePath × List UInt8) :=
  match visit.outcome with
  | .document path bytes => some (path, bytes)
  | _ => none

variable {fail} {files : Files} {order : List Visit}

theorem gather_append (first second : List Visit) : gather fail files (first ++ second) =
      (gather fail files first).bind fun files ↦ gather fail files second := by
  induction first generalizing files with
  | nil => rfl
  | cons visit rest ih =>
    rw [List.cons_append, gather, Result.foldlM, gather, Result.foldlM, Result.bind_assoc]
    exact Result.bind_congr fun _ _ ↦ ih

theorem gather_flatMap {α : Type} (group : α → List Visit) (items : List α) :
    gather fail files (items.flatMap group) =
      Result.foldlM (fun files item ↦ gather fail files (group item)) files items := by
  induction items generalizing files with
  | nil => rfl
  | cons item rest ih =>
    rw [List.flatMap_cons, gather_append, Result.foldlM]
    exact Result.bind_congr fun _ _ ↦ ih

theorem gather_single (entry : DiskPath) (outcome : VisitOutcome) :
    gather fail files [⟨entry, outcome⟩] = take fail files ⟨entry, outcome⟩ := by
  rw [gather, Result.foldlM]
  cases take fail files ⟨entry, outcome⟩ <;> rfl

/-- A run without a stop adds the documents. -/
theorem gather_of_passes (hpasses : ∀ visit ∈ order, visit.Passes) :
    gather fail files order = .ok ((order.filterMap Visit.document?).foldl
      (fun files pair ↦ files.insert pair.1 pair.2) files) := by
  induction order generalizing files with
  | nil => rfl
  | cons visit rest ih =>
    have hrest := fun files ↦ @ih files fun other hother ↦
      hpasses other (List.mem_cons_of_mem _ hother)
    have hhead := hpasses visit List.mem_cons_self
    rw [gather, Result.foldlM, take]
    cases houtcome : visit.outcome with
    | passed =>
      rw [List.filterMap_cons_none (by rw [Visit.document?, houtcome])]
      exact hrest files
    | document path bytes =>
      rw [List.filterMap_cons_some (b := (path, bytes)) (by rw [Visit.document?, houtcome])]
      exact hrest (files.insert path bytes)
    | stopped cause => exact absurd houtcome (hhead cause)

/-- A run reports the first stop. -/
theorem gather_of_stopped {before after : List Visit} {visit : Visit} {cause : Cause}
    (hpasses : ∀ other ∈ before, other.Passes) (hstop : visit.outcome = .stopped cause) :
    gather fail files (before ++ visit :: after) = .err (fail cause) := by
  rw [gather_append, gather_of_passes hpasses, Result.ok_bind, gather, Result.foldlM, take, hstop]
  rfl

theorem stops_or_passes (order : List Visit) :
    (∃ (before : List Visit) (visit : Visit) (after : List Visit) (cause : Cause),
      order = before ++ visit :: after ∧ (∀ other ∈ before, other.Passes) ∧
        visit.outcome = .stopped cause) ∨ ∀ visit ∈ order, visit.Passes := by
  induction order with
  | nil => exact Or.inr fun _ hvisit ↦ absurd hvisit List.not_mem_nil
  | cons visit rest ih =>
    by_cases hhead : visit.Passes
    · rcases ih with ⟨before, other, after, cause, rfl, hpasses, hstop⟩ | hpasses
      · exact Or.inl ⟨visit :: before, other, after, cause, rfl,
          List.forall_mem_cons.mpr ⟨hhead, hpasses⟩, hstop⟩
      · exact Or.inr (List.forall_mem_cons.mpr ⟨hhead, hpasses⟩)
    · simp only [Visit.Passes, ne_eq, not_forall, not_not] at hhead
      obtain ⟨cause, hstop⟩ := hhead
      exact Or.inl ⟨[], visit, rest, cause, rfl, fun _ h ↦ absurd h List.not_mem_nil, hstop⟩

end Gather

/-! ### Both walks are runs over the order -/

section Runs

variable {fs : WalkFs} {diskPath root : DiskPath} {files : Files}

/-- Steps that agree on the items of a list agree as folds over it. -/
theorem foldlM_congr {ε σ α : Type} {first second : σ → α → Result ε σ} {items : List α}
    (hstep : ∀ item ∈ items, ∀ state, first state item = second state item) (state : σ) :
    Result.foldlM first state items = Result.foldlM second state items := by
  induction items generalizing state with
  | nil => rfl
  | cons item rest ih =>
    rw [Result.foldlM, Result.foldlM, hstep item List.mem_cons_self]
    exact Result.bind_congr fun next _ ↦
      ih (fun other hother ↦ hstep other (List.mem_cons_of_mem _ hother)) next

/-- A fold seen through a projection of its state. Assumes: every step commutes with it. -/
theorem foldlM_project {ε σ τ α : Type} (project : σ → τ) {first : σ → α → Result ε σ}
    {second : τ → α → Result ε τ} {items : List α} (hstep : ∀ item ∈ items, ∀ state,
      (first state item).bind (fun next ↦ .ok (project next)) = second (project state) item)
    (state : σ) : (Result.foldlM first state items).bind (fun last ↦ .ok (project last)) =
      Result.foldlM second (project state) items := by
  induction items generalizing state with
  | nil => rfl
  | cons item rest ih =>
    have hrest := ih fun other hother ↦ hstep other (List.mem_cons_of_mem _ hother)
    rw [Result.foldlM, Result.foldlM, ← hstep item List.mem_cons_self, Result.bind_assoc,
      Result.bind_assoc]
    exact Result.bind_congr fun next _ ↦ hrest next

theorem fileOutcome_of_error {error : InvalidPath} {kind : EntryKind}
    (hclass : campaignDocumentPath logical = .error error) :
    fileOutcome fs diskPath logical kind = .stopped (.classifier logical error hclass) := by
  unfold fileOutcome
  split
  · next other hother =>
    cases hclass.symm.trans hother
    rfl
  · next hother => cases hclass.symm.trans hother
  · next hother => cases hclass.symm.trans hother

theorem fileOutcome_of_none {kind : EntryKind} (hclass : campaignDocumentPath logical = .ok none) :
    fileOutcome fs diskPath logical kind = .passed := by
  unfold fileOutcome
  split <;> simp_all

theorem fileOutcome_of_some {kind : EntryKind}
    (hclass : campaignDocumentPath logical = .ok (some path)) :
    fileOutcome fs diskPath logical kind = match kind with
      | .file =>
        match fs.readFile diskPath with
        | .ok bytes => .document path bytes
        | .error error => .stopped (.disk "read" (some path) logical (Cli.ioKind error))
      | .symlink => .stopped (.disk "classify" (some path) logical .symlinkAtDocumentPath)
      | .directory | .other => .stopped (.disk "classify" (some path) logical .ioError) := by
  unfold fileOutcome
  split <;> simp_all

theorem gather_ancestors {ε : Type} {fail : Cause → ε} {check : DiskPath → Result ε Unit}
    (hcheck : ∀ ancestor files, (check ancestor).bind (fun _ ↦ .ok files) =
      if ancestor.isEmpty = true then .ok files
      else take fail files ⟨ancestor, rootOutcome fs ancestor⟩) (ancestors : List DiskPath) :
    gather fail files ((ancestors.filter fun ancestor ↦ !ancestor.isEmpty).map
        fun diskPath ↦ ⟨diskPath, rootOutcome fs diskPath⟩) =
      (Result.forM check ancestors).bind fun _ ↦ .ok files := by
  induction ancestors with
  | nil => rfl
  | cons ancestor rest ih =>
    have hfirst := hcheck ancestor
    rw [Result.forM, Result.bind_assoc]
    by_cases hempty : ancestor.isEmpty = true
    · rw [List.filter_cons_of_neg (by simp [hempty]), ih]
      have hpass := hfirst files
      rw [if_pos hempty] at hpass
      cases hchecked : check ancestor with
      | ok _ => rfl
      | err _ => rw [hchecked] at hpass; cases hpass
      | panic => rw [hchecked] at hpass; cases hpass
    · rw [List.filter_cons_of_pos (by simp [hempty]), List.map_cons, gather, Result.foldlM]
      have htake := hfirst files
      rw [if_neg hempty] at htake
      rw [← htake, Result.bind_assoc]
      exact Result.bind_congr fun _ _ ↦ ih

theorem Bridge.collectFileEntry_eq (kind : EntryKind) :
    collectFileEntry fs diskPath logical kind files =
      take Cause.fault files ⟨diskPath, fileOutcome fs diskPath logical kind⟩ := by
  unfold collectFileEntry take
  cases hclass : campaignDocumentPath logical with
  | error error => rw [fileOutcome_of_error hclass]; rfl
  | ok found =>
    cases found with
    | none => rw [fileOutcome_of_none hclass]
    | some path =>
      rw [fileOutcome_of_some hclass]
      cases kind with
      | file =>
        dsimp only
        cases fs.readFile diskPath with
        | error error => rfl
        | ok bytes => rfl
      | directory => rfl
      | symlink => rfl
      | other => rfl

/-- The bridge's walk below a directory. The induction is on the fuel; the height of a directory
bounds it. -/
theorem Bridge.collectInto_eq {fuel : ℕ} {diskDir : DiskPath} (hfuel : fs.height diskDir < fuel)
    (logicalDir : String) (files : Files) : collectInto fs fuel diskDir logicalDir files =
      gather Cause.fault files (below fs fuel diskDir logicalDir) := by
  induction fuel generalizing diskDir logicalDir files with
  | zero => exact absurd hfuel (Nat.not_lt_zero _)
  | succ fuel ih =>
    rw [collectInto, below]
    cases hnames : fs.readDirNames diskDir with
    | error error => rfl
    | ok names =>
      dsimp only
      rw [gather_flatMap]
      apply foldlM_congr
      intro name hname files
      unfold visitName
      cases htext : name.toStr with
      | none => rfl
      | some text =>
        dsimp only
        cases hkind : fs.metadata (diskDir.join name) with
        | error error => rfl
        | ok kind =>
          cases kind with
          | directory =>
            have hlower := fs.height_lt diskDir names name hnames (List.mem_mergeSort.mp hname)
              hkind
            exact ih (by omega) _ files
          | file => exact (collectFileEntry_eq _).trans (gather_single _ _).symm
          | symlink => exact (collectFileEntry_eq _).trans (gather_single _ _).symm
          | other => exact (collectFileEntry_eq _).trans (gather_single _ _).symm

theorem Bridge.checkAncestor_bind (ancestor : DiskPath) (files : Files) :
    (checkAncestor fs ancestor).bind (fun _ ↦ .ok files) = if ancestor.isEmpty = true then .ok files
      else take Cause.fault files ⟨ancestor, rootOutcome fs ancestor⟩ := by
  unfold checkAncestor take rootOutcome
  split_ifs with hempty
  · rfl
  · cases fs.metadata ancestor with
    | error error => rfl
    | ok kind => cases kind <;> rfl

theorem Bridge.collectCampaign_eq (fs : WalkFs) (root : DiskPath) :
    collectCampaign fs root = gather Cause.fault .empty (visits fs root) := by
  unfold collectCampaign visits
  by_cases hunicode : root.isUnicode = false
  · rw [if_pos hunicode, if_pos hunicode]
    rfl
  · rw [if_neg hunicode, if_neg hunicode, List.map_append, gather_append, gather_append,
      gather_ancestors checkAncestor_bind, Result.bind_assoc, Result.bind_assoc]
    apply Result.bind_congr
    intro _ _
    rw [Result.ok_bind, List.map_singleton, gather_single, take, rootOutcome]
    cases fs.metadata root with
    | error error => rfl
    | ok kind =>
      cases kind with
      | directory => exact collectInto_eq (Nat.lt_succ_self _) "" .empty
      | file => rfl
      | symlink => rfl
      | other => rfl

theorem Cli.collectFileEntry_eq (kind : EntryKind) (collected : CollectedCampaign) :
    (collectFileEntry fs diskPath logical kind collected).bind (fun next ↦ .ok next.1) =
      take Cause.diagnostic collected.1 ⟨diskPath, fileOutcome fs diskPath logical kind⟩ := by
  unfold collectFileEntry take
  cases hclass : campaignDocumentPath logical with
  | error error => rw [fileOutcome_of_error hclass]; rfl
  | ok found =>
    cases found with
    | none => rw [fileOutcome_of_none hclass]; rfl
    | some path =>
      rw [fileOutcome_of_some hclass]
      cases kind with
      | file =>
        dsimp only
        cases fs.readFile diskPath with
        | error error => rfl
        | ok bytes => rfl
      | directory => rfl
      | symlink => rfl
      | other => rfl

/-- The command line's walk below a directory, as `Bridge.collectInto_eq`; the regular paths it also
collects decide nothing. -/
theorem Cli.collectInto_eq {fuel : ℕ} {diskDir : DiskPath} (hfuel : fs.height diskDir < fuel)
    (logicalDir : String) (collected : CollectedCampaign) :
    (collectInto fs fuel diskDir logicalDir collected).bind (fun next ↦ .ok next.1) =
      gather Cause.diagnostic collected.1 (below fs fuel diskDir logicalDir) := by
  induction fuel generalizing diskDir logicalDir collected with
  | zero => exact absurd hfuel (Nat.not_lt_zero _)
  | succ fuel ih =>
    rw [collectInto, below]
    cases hnames : fs.readDirNames diskDir with
    | error error => rfl
    | ok names =>
      dsimp only
      rw [gather_flatMap]
      apply foldlM_project Prod.fst
      intro name hname collected
      unfold visitName
      cases htext : name.toStr with
      | none => rfl
      | some text =>
        dsimp only
        cases hkind : fs.metadata (diskDir.join name) with
        | error error => rfl
        | ok kind =>
          cases kind with
          | directory =>
            have hlower := fs.height_lt diskDir names name hnames (List.mem_mergeSort.mp hname)
              hkind
            exact ih (by omega) _ collected
          | file => exact (collectFileEntry_eq _ _).trans (gather_single _ _).symm
          | symlink => exact (collectFileEntry_eq _ _).trans (gather_single _ _).symm
          | other => exact (collectFileEntry_eq _ _).trans (gather_single _ _).symm

theorem Cli.checkAncestor_bind (ancestor : DiskPath) (files : Files) :
    (checkAncestor fs ancestor).bind (fun _ ↦ .ok files) = if ancestor.isEmpty = true then .ok files
      else take Cause.diagnostic files ⟨ancestor, rootOutcome fs ancestor⟩ := by
  unfold checkAncestor take rootOutcome
  split_ifs with hempty
  · rfl
  · cases fs.metadata ancestor with
    | error error => rfl
    | ok kind => cases kind <;> rfl

/-- The command line's walk is the run over the order. -/
theorem Cli.collectCampaignFilesWith_eq (fs : WalkFs) (root : DiskPath) :
    collectCampaignFilesWith fs root = gather Cause.diagnostic .empty (visits fs root) := by
  unfold collectCampaignFilesWith collectCampaignFilesAndPathsWith visits
  by_cases hunicode : root.isUnicode = false
  · rw [if_pos hunicode, if_pos hunicode]
    rfl
  · rw [if_neg hunicode, if_neg hunicode, List.map_append, gather_append, gather_append,
      gather_ancestors checkAncestor_bind, Result.bind_assoc, Result.bind_assoc, Result.bind_eq,
      Result.bind_eq, Result.bind_assoc]
    apply Result.bind_congr
    intro _ _
    rw [Result.ok_bind, List.map_singleton, gather_single, take, rootOutcome]
    cases fs.metadata root with
    | error error => rfl
    | ok kind =>
      cases kind with
      | directory => exact collectInto_eq (Nat.lt_succ_self _) "" (.empty, [])
      | file => rfl
      | symlink => rfl
      | other => rfl

end Runs

/-! ### What is visited -/

inductive Stands (fs : WalkFs) (root : DiskPath) : DiskPath → String → EntryKind → Prop
  | root : Stands fs root root "" .directory
  | listed {diskDir : DiskPath} {logicalDir text : String} {names : List OsName} {kind : EntryKind}
      (hdir : Stands fs root diskDir logicalDir .directory)
      (hnames : fs.readDirNames diskDir = .ok names) (hname : .unicode text ∈ names)
      (hkind : fs.metadata (diskDir.join (.unicode text)) = .ok kind) :
      Stands fs root (diskDir.join (.unicode text)) (joinLogical logicalDir text) kind

section Visited

variable {fs : WalkFs} {root diskPath other : DiskPath} {logicalDir otherDir text otherText : String}

/-- A directory and one name are read off the logical path of an entry. -/
theorem joinLogical_inj (htext : '/' ∉ text.toList) (hother : '/' ∉ otherText.toList)
    (hjoin : joinLogical logicalDir text = joinLogical otherDir otherText) :
    logicalDir = otherDir ∧ text = otherText := by
  have hslash : ∀ first second : String, '/' ∈ (first ++ "/" ++ second).toList := by simp
  unfold joinLogical at hjoin
  split_ifs at hjoin with hroot hotherRoot hotherRoot
  · exact ⟨hroot.trans hotherRoot.symm, hjoin⟩
  · rw [hjoin] at htext
    exact absurd (hslash otherDir otherText) htext
  · rw [← hjoin] at hother
    exact absurd (hslash logicalDir text) hother
  · have htake : ∀ name rest : List Char, '/' ∉ name →
        (name.reverse ++ '/' :: rest).takeWhile (· != '/') = name.reverse := by
      intro name rest hname
      rw [List.takeWhile_append_of_pos]
      · simp
      · intro letter hletter
        have hne : letter ≠ '/' := fun h ↦ hname (h ▸ List.mem_reverse.mp hletter)
        simpa using hne
    have hchars : text.toList.reverse ++ '/' :: logicalDir.toList.reverse =
        otherText.toList.reverse ++ '/' :: otherDir.toList.reverse := by
      have hreverse := congrArg (fun joined ↦ joined.toList.reverse) hjoin
      simpa using hreverse
    have hnames := congrArg (List.takeWhile (· != '/')) hchars
    rw [htake _ _ htext, htake _ _ hother] at hnames
    rw [hnames] at hchars
    have hdirs := List.cons.inj (List.append_cancel_left hchars)
    exact ⟨String.toList_injective (List.reverse_injective hdirs.2),
      String.toList_injective (List.reverse_injective hnames)⟩

theorem joinLogical_ne_empty (htext : text ≠ "") : joinLogical logicalDir text ≠ "" := by
  unfold joinLogical
  split_ifs with hroot
  · exact htext
  · intro hempty
    have hlength := congrArg String.length hempty
    simp at hlength

theorem Stands.unique {kind otherKind : EntryKind} (hstands : Stands fs root diskPath logical kind)
    (hother : Stands fs root other logical otherKind) : diskPath = other := by
  induction hstands generalizing other otherKind with
  | root =>
    generalize hempty : "" = shown at hother
    cases hother with
    | root => rfl
    | listed hdir hnames hname _ =>
      exact absurd hempty.symm (joinLogical_ne_empty (fs.component _ _ _ hnames hname).1)
  | @listed diskDir logicalDir text names kind hdir hnames hname hkind ih =>
    generalize hjoined : joinLogical logicalDir text = joined at hother
    cases hother with
    | root => exact absurd hjoined (joinLogical_ne_empty (fs.component _ _ _ hnames hname).1)
    | listed hotherDir hotherNames hotherName _ =>
      obtain ⟨rfl, rfl⟩ := joinLogical_inj (fs.component _ _ _ hnames hname).2
        (fs.component _ _ _ hotherNames hotherName).2 hjoined
      rw [ih hotherDir]

theorem visitName_directory {inside : DiskPath → String → List Visit}
    (hkind : fs.metadata (diskPath.join (.unicode text)) = .ok .directory) :
    visitName fs inside diskPath logicalDir (.unicode text) =
      ⟨diskPath.join (.unicode text), .passed⟩ ::
        inside (diskPath.join (.unicode text)) (joinLogical logicalDir text) := by
  simp only [visitName, OsName.toStr, hkind]

theorem visitName_entry {inside : DiskPath → String → List Visit} {kind : EntryKind}
    (hkind : fs.metadata (diskPath.join (.unicode text)) = .ok kind) (hnot : kind ≠ .directory) :
    visitName fs inside diskPath logicalDir (.unicode text) =
      [⟨diskPath.join (.unicode text), fileOutcome fs (diskPath.join (.unicode text))
        (joinLogical logicalDir text) kind⟩] := by
  cases kind with
  | directory => exact absurd rfl hnot
  | file => simp only [visitName, OsName.toStr, hkind]
  | symlink => simp only [visitName, OsName.toStr, hkind]
  | other => simp only [visitName, OsName.toStr, hkind]

theorem fileOutcome_eq_document {kind : EntryKind} {bytes : List UInt8}
    (houtcome : fileOutcome fs diskPath logical kind = .document path bytes) :
    kind = .file ∧ campaignDocumentPath logical = .ok (some path) ∧
      fs.readFile diskPath = .ok bytes := by
  cases hclass : campaignDocumentPath logical with
  | error error =>
    rw [fileOutcome_of_error hclass] at houtcome
    cases houtcome
  | ok found =>
    cases found with
    | none =>
      rw [fileOutcome_of_none hclass] at houtcome
      cases houtcome
    | some found =>
      rw [fileOutcome_of_some hclass] at houtcome
      cases kind with
      | file =>
        cases hread : fs.readFile diskPath with
        | error error =>
          rw [hread] at houtcome
          cases houtcome
        | ok read =>
          rw [hread] at houtcome
          cases houtcome
          exact ⟨rfl, rfl, rfl⟩
      | directory => cases houtcome
      | symlink => cases houtcome
      | other => cases houtcome

theorem mem_below_of_stands {kind : EntryKind} (hstands : Stands fs root diskPath logical kind) :
    (kind = .directory ∧ ∃ fuel, fs.height diskPath < fuel ∧
      ∀ visit ∈ below fs fuel diskPath logical, visit ∈ below fs (fs.height root + 1) root "") ∨
    (kind ≠ .directory ∧
      ⟨diskPath, fileOutcome fs diskPath logical kind⟩ ∈ below fs (fs.height root + 1) root "") := by
  induction hstands with
  | root => exact Or.inl ⟨rfl, _, Nat.lt_succ_self _, fun _ hvisit ↦ hvisit⟩
  | @listed diskDir logicalDir text names kind hdir hnames hname hkind ih =>
    rcases ih with ⟨-, fuel, hfuel, hincluded⟩ | ⟨hnot, -⟩
    · cases fuel with
      | zero => exact absurd hfuel (Nat.not_lt_zero _)
      | succ fuel =>
        have hgroup : ∀ visit,
            visit ∈ visitName fs (below fs fuel) diskDir logicalDir (.unicode text) →
              visit ∈ below fs (fs.height root + 1) root "" := by
          intro visit hvisit
          apply hincluded
          rw [below, hnames]
          exact List.mem_flatMap.mpr ⟨_, List.mem_mergeSort.mpr hname, hvisit⟩
        by_cases hdirectory : kind = .directory
        · subst hdirectory
          refine Or.inl ⟨rfl, fuel, ?_, fun visit hvisit ↦ hgroup visit ?_⟩
          · have hlower := fs.height_lt _ _ _ hnames hname hkind
            omega
          · rw [visitName_directory hkind]
            exact List.mem_cons_of_mem _ hvisit
        · refine Or.inr ⟨hdirectory, hgroup _ ?_⟩
          rw [visitName_entry hkind hdirectory]
          exact List.mem_singleton_self _
    · exact absurd rfl hnot

theorem stands_of_document {fuel : ℕ} {diskDir : DiskPath} {visit : Visit} {bytes : List UInt8}
    (hdir : Stands fs root diskDir logicalDir .directory)
    (hvisit : visit ∈ below fs fuel diskDir logicalDir)
    (houtcome : visit.outcome = .document path bytes) :
    ∃ logical, Stands fs root visit.entry logical .file ∧
      campaignDocumentPath logical = .ok (some path) ∧ fs.readFile visit.entry = .ok bytes := by
  induction fuel generalizing diskDir logicalDir with
  | zero => exact absurd hvisit List.not_mem_nil
  | succ fuel ih =>
    rw [below] at hvisit
    cases hnames : fs.readDirNames diskDir with
    | error error =>
      rw [hnames] at hvisit
      rw [List.mem_singleton.mp hvisit] at houtcome
      cases houtcome
    | ok names =>
      rw [hnames] at hvisit
      obtain ⟨name, hsorted, hnamed⟩ := List.mem_flatMap.mp hvisit
      have hname := List.mem_mergeSort.mp hsorted
      cases name with
      | other bytes =>
        rw [List.mem_singleton.mp hnamed] at houtcome
        cases houtcome
      | unicode text =>
        cases hkind : fs.metadata (diskDir.join (.unicode text)) with
        | error error =>
          simp only [visitName, OsName.toStr, hkind, List.mem_singleton] at hnamed
          rw [hnamed] at houtcome
          cases houtcome
        | ok kind =>
          have hstands := Stands.listed hdir hnames hname hkind
          by_cases hdirectory : kind = .directory
          · subst hdirectory
            rw [visitName_directory hkind] at hnamed
            rcases List.mem_cons.mp hnamed with hpassed | hinside
            · rw [hpassed] at houtcome
              cases houtcome
            · exact ih hstands hinside
          · rw [visitName_entry hkind hdirectory, List.mem_singleton] at hnamed
            rw [hnamed] at houtcome ⊢
            obtain ⟨rfl, hclass, hread⟩ := fileOutcome_eq_document houtcome
            exact ⟨_, hstands, hclass, hread⟩

end Visited

/-! ### The two collectors -/

section Collectors

variable {fs : WalkFs} {root diskPath : DiskPath}

/-- Only a refusal of the classifier is an invalid campaign, in both reports. -/
theorem Cause.invalid_iff (cause : Cause) : cause.fault.code = .campaignInvalid ↔
    ∃ logical error, campaignDocumentPath logical = .error error ∧
      cause.diagnostic = Cli.diagnosticForDataError error := by
  cases cause with
  | disk op file logical kind =>
    constructor
    · intro hcode
      cases hcode
    · intro ⟨_, _, _, hdiagnostic⟩
      cases hdiagnostic
  | classifier logical error hrefused =>
    exact ⟨fun _ ↦ ⟨logical, error, hrefused, rfl⟩, fun _ ↦ rfl⟩

theorem mem_documents_iff {fuel : ℕ} (hfuel : fuel = fs.height root + 1) {bytes : List UInt8} :
    (path, bytes) ∈ (below fs fuel root "").filterMap Visit.document? ↔
      ∃ diskPath logical, Stands fs root diskPath logical .file ∧
        campaignDocumentPath logical = .ok (some path) ∧ fs.readFile diskPath = .ok bytes := by
  subst hfuel
  rw [List.mem_filterMap]
  constructor
  · intro ⟨visit, hvisit, hdocument⟩
    unfold Visit.document? at hdocument
    split at hdocument
    · next houtcome =>
      cases hdocument
      obtain ⟨logical, hfound⟩ := stands_of_document .root hvisit houtcome
      exact ⟨visit.entry, logical, hfound⟩
    · cases hdocument
  · intro ⟨diskPath, logical, hstands, hclass, hread⟩
    rcases mem_below_of_stands hstands with ⟨hdirectory, -⟩ | ⟨-, hvisit⟩
    · cases hdirectory
    · refine ⟨_, hvisit, ?_⟩
      rw [Visit.document?, fileOutcome_of_some hclass]
      simp only [hread]

theorem isUnicode_of_passes (hpasses : ∀ visit ∈ visits fs root, visit.Passes) :
    root.isUnicode ≠ false := by
  intro hunicode
  rw [visits, if_pos hunicode] at hpasses
  exact hpasses _ (List.mem_singleton_self _) _ rfl

theorem documents_visits (hunicode : root.isUnicode ≠ false) :
    (visits fs root).filterMap Visit.document? =
      (below fs (fs.height root + 1) root "").filterMap Visit.document? := by
  rw [visits, if_neg hunicode, List.filterMap_append, List.filterMap_eq_nil_iff.mpr,
    List.nil_append]
  intro visit hvisit
  obtain ⟨diskPath, -, rfl⟩ := List.mem_map.mp hvisit
  unfold Visit.document? rootOutcome
  cases fs.metadata diskPath with
  | error error => rfl
  | ok kind => cases kind <;> rfl

theorem readable_of_passes (hpasses : ∀ visit ∈ visits fs root, visit.Passes)
    (hstands : Stands fs root diskPath logical .file)
    (hclass : campaignDocumentPath logical = .ok (some path)) :
    ∃ bytes, fs.readFile diskPath = .ok bytes := by
  rcases mem_below_of_stands hstands with ⟨hdirectory, -⟩ | ⟨-, hvisit⟩
  · cases hdirectory
  · have hpass : Visit.Passes ⟨diskPath, fileOutcome fs diskPath logical .file⟩ := by
      apply hpasses
      rw [visits, if_neg (isUnicode_of_passes hpasses)]
      exact List.mem_append_right _ hvisit
    cases hread : fs.readFile diskPath with
    | ok bytes => exact ⟨bytes, rfl⟩
    | error error =>
      rw [Visit.Passes, fileOutcome_of_some hclass] at hpass
      simp only [hread] at hpass
      exact absurd rfl (hpass _)

theorem collected_iff (hpasses : ∀ visit ∈ visits fs root, visit.Passes) {bytes : List UInt8} :
    (BTreeMap.ofList ((visits fs root).filterMap Visit.document?)).get? path = some bytes ↔
      ∃ diskPath logical, Stands fs root diskPath logical .file ∧
        campaignDocumentPath logical = .ok (some path) ∧ fs.readFile diskPath = .ok bytes := by
  rw [documents_visits (isUnicode_of_passes hpasses)]
  have hfound : ∀ bytes, (BTreeMap.ofList
      ((below fs (fs.height root + 1) root "").filterMap Visit.document?)).get? path = some bytes →
        ∃ diskPath logical, Stands fs root diskPath logical .file ∧
          campaignDocumentPath logical = .ok (some path) ∧ fs.readFile diskPath = .ok bytes :=
    fun bytes hget ↦ (mem_documents_iff rfl).mp (BTreeMap.mem_of_get?_ofList hget)
  constructor
  · exact hfound bytes
  · intro ⟨diskPath, logical, hstands, hclass, hread⟩
    have hmem := (mem_documents_iff rfl).mpr ⟨diskPath, logical, hstands, hclass, hread⟩
    have hkey := BTreeMap.mem_keys_ofList_iff.mpr (List.mem_map_of_mem (f := Prod.fst) hmem)
    obtain ⟨other, hother⟩ := (BTreeMap.mem_keys_iff _).mp hkey
    obtain ⟨otherPath, otherLogical, hotherStands, hotherClass, hotherRead⟩ := hfound other hother
    -- One key has one logical path, and that one disk path.
    rw [← eq_of_parsePath (campaignDocumentPath_eq_ok_some_iff.mp hclass).2] at hstands
    rw [← eq_of_parsePath (campaignDocumentPath_eq_ok_some_iff.mp hotherClass).2] at hotherStands
    rw [hotherStands.unique hstands, hread] at hotherRead
    cases hotherRead
    exact hother

/-- The two collectors agree on every tree and every root. They return the same files; when they do
not return files they stop at the same entry, the first in sorted depth-first order that stops a
walk, and the bridge calls the campaign invalid exactly when the command line reports the
classifier. The files are those that stand below the root as regular files at classified paths, and
a path is classified exactly when the layout check accepts it for some document. -/
theorem collectors_agree {types : ManifestTypes} {Rest : Type} (manifest : Campaign types)
    (rest : Rest) (fs : WalkFs) (root : DiskPath) :
    (∀ files, Bridge.collectCampaign fs root = .ok files ↔
      Cli.collectCampaignFilesWith fs root = .ok files) ∧
    ((∀ files, Bridge.collectCampaign fs root ≠ .ok files) →
      ∃ (before : List Visit) (visit : Visit) (after : List Visit) (cause : Cause),
        visits fs root = before ++ visit :: after ∧ (∀ other ∈ before, other.Passes) ∧
          visit.outcome = .stopped cause ∧ Bridge.collectCampaign fs root = .err cause.fault ∧
          Cli.collectCampaignFilesWith fs root = .err cause.diagnostic ∧
          (cause.fault.code = .campaignInvalid ↔
            ∃ logical error, campaignDocumentPath logical = .error error ∧
              cause.diagnostic = Cli.diagnosticForDataError error)) ∧
    (∀ files, Bridge.collectCampaign fs root = .ok files →
      (∀ diskPath logical path, Stands fs root diskPath logical .file →
        campaignDocumentPath logical = .ok (some path) →
          ∃ bytes, fs.readFile diskPath = .ok bytes ∧ files.get? path = some bytes) ∧
      (∀ path bytes, files.get? path = some bytes →
        ∃ diskPath logical, Stands fs root diskPath logical .file ∧
          campaignDocumentPath logical = .ok (some path) ∧ fs.readFile diskPath = .ok bytes)) ∧
    ∀ value path, campaignDocumentPath value = .ok (some path) ↔
      parsePath value = some path ∧ ∃ document : Document types Rest,
        checkLayout (BTreeMap.empty.insert path document) = .ok () := by
  rw [Bridge.collectCampaign_eq, Cli.collectCampaignFilesWith_eq]
  refine ⟨?_, ?_, ?_, fun value path ↦ ?_⟩
  · intro files
    rcases stops_or_passes (visits fs root) with ⟨before, visit, after, cause, horder, hbefore,
      hstop⟩ | hpasses
    · rw [horder, gather_of_stopped hbefore hstop, gather_of_stopped hbefore hstop]
      exact ⟨fun h ↦ (nomatch h), fun h ↦ (nomatch h)⟩
    · rw [gather_of_passes hpasses, gather_of_passes hpasses, Result.ok.injEq, Result.ok.injEq]
  · intro hnone
    rcases stops_or_passes (visits fs root) with ⟨before, visit, after, cause, horder, hbefore,
      hstop⟩ | hpasses
    · refine ⟨before, visit, after, cause, horder, hbefore, hstop, ?_, ?_, cause.invalid_iff⟩
      · rw [horder, gather_of_stopped hbefore hstop]
      · rw [horder, gather_of_stopped hbefore hstop]
    · exact absurd (gather_of_passes hpasses) (hnone _)
  · intro files hfiles
    rcases stops_or_passes (visits fs root) with ⟨before, visit, after, cause, horder, hbefore,
      hstop⟩ | hpasses
    · rw [horder, gather_of_stopped hbefore hstop] at hfiles
      cases hfiles
    · rw [gather_of_passes hpasses] at hfiles
      obtain rfl := Result.ok.inj hfiles
      refine ⟨fun diskPath logical path hstands hclass ↦ ?_, fun path bytes hget ↦ ?_⟩
      · obtain ⟨bytes, hread⟩ := readable_of_passes hpasses hstands hclass
        exact ⟨bytes, hread, (collected_iff hpasses).mpr ⟨diskPath, logical, hstands, hclass, hread⟩⟩
      · exact (collected_iff hpasses).mp hget
  · rw [campaignDocumentPath_eq_ok_some_iff, and_comm]
    apply and_congr_right
    intro hparse
    rw [← eq_of_parsePath hparse]
    exact isCandidate_iff manifest rest

end Collectors

def home : DiskPath := ⟨true, [.unicode "home"]⟩

/-- A campaign with an area two directories down, and a file that is no document. -/
def nestedDisk : WalkFs :=
  .ofFiles [([.unicode "home", .unicode "areas", .unicode "inn", .unicode "area.json"], [2]),
    ([.unicode "home", .unicode "campaign.json"], [3]),
    ([.unicode "home", .unicode "notes.txt"], [1])] (by decide)

theorem below_of_sorted {fs : WalkFs} {diskDir : DiskPath} {names : List OsName} (fuel : ℕ)
    (logicalDir : String) (hread : fs.readDirNames diskDir = .ok names)
    (hnames : names.Pairwise fun first second ↦ first.encodedBytes ≤ second.encodedBytes) :
    below fs (fuel + 1) diskDir logicalDir =
      names.flatMap (visitName fs (below fs fuel) diskDir logicalDir) := by
  have hsorted : sortNames names = names := List.mergeSort_of_pairwise (by simpa using hnames)
  rw [below, hread]
  dsimp only
  rw [hsorted]

theorem collectCampaign_nestedDisk : ∃ files, Bridge.collectCampaign nestedDisk home = .ok files ∧
    files.entries = [("areas/inn/area.json", [2]), ("campaign.json", [3])] := by
  have hhome : nestedDisk.readDirNames home =
      .ok [.unicode "areas", .unicode "campaign.json", .unicode "notes.txt"] := by decide +kernel
  have hareas : nestedDisk.readDirNames (home.join (.unicode "areas")) = .ok [.unicode "inn"] := by
    decide +kernel
  have hinn : nestedDisk.readDirNames ((home.join (.unicode "areas")).join (.unicode "inn")) =
      .ok [.unicode "area.json"] := by decide +kernel
  have hfiles : nestedDisk.metadata (home.join (.unicode "campaign.json")) = .ok .file ∧
      nestedDisk.metadata (home.join (.unicode "notes.txt")) = .ok .file ∧
      nestedDisk.metadata (((home.join (.unicode "areas")).join (.unicode "inn")).join
        (.unicode "area.json")) = .ok .file := by decide +kernel
  have hheight : nestedDisk.height home + 1 = 4 := by decide +kernel
  have hcollected : (gather Cause.fault .empty (visits nestedDisk home)).isOkAnd (fun files ↦
      files.entries = [("areas/inn/area.json", [2]), ("campaign.json", [3])]) = true := by
    rw [visits, hheight, below_of_sorted _ _ hhome (by decide +kernel)]
    simp only [List.flatMap_cons, List.flatMap_nil, List.append_nil]
    rw [visitName_directory (by decide +kernel), visitName_entry hfiles.1 nofun,
      visitName_entry hfiles.2.1 nofun, below_of_sorted _ _ hareas (by decide +kernel)]
    simp only [List.flatMap_cons, List.flatMap_nil, List.append_nil]
    rw [visitName_directory (by decide +kernel), below_of_sorted _ _ hinn (by decide +kernel)]
    simp only [List.flatMap_cons, List.flatMap_nil, List.append_nil]
    rw [visitName_entry hfiles.2.2 nofun]
    decide +kernel
  rw [← Bridge.collectCampaign_eq] at hcollected
  obtain ⟨files, hfiles, hentries⟩ := Result.isOkAnd_iff.mp hcollected
  exact ⟨files, hfiles, of_decide_eq_true hentries⟩

theorem collectors_agree_nested : ∃ files,
    Bridge.collectCampaign nestedDisk home = .ok files ∧
    Cli.collectCampaignFilesWith nestedDisk home = .ok files ∧
    files.entries = [("areas/inn/area.json", [2]), ("campaign.json", [3])] ∧
    ∃ diskPath logical, Stands nestedDisk home diskPath logical .file ∧
      campaignDocumentPath logical = .ok (some "areas/inn/area.json") ∧
      nestedDisk.readFile diskPath = .ok [2] := by
  let manifest : Campaign ⟨String, String, String, String, String, textCodec, textCodec, textCodec,
      textsCodec, textCodec⟩ :=
    ⟨1, "slug", "name", none, "package", "0.1.0", ">=0.1.0", ["base"], "entry"⟩
  obtain ⟨files, hfiles, hentries⟩ := collectCampaign_nestedDisk
  obtain ⟨hagree, -, hstands, -⟩ := collectors_agree manifest () nestedDisk home
  refine ⟨files, hfiles, (hagree files).mp hfiles, hentries,
    (hstands files hfiles).2 "areas/inn/area.json" [2] ?_⟩
  rw [BTreeMap.get?, hentries]
  rfl

end Crpg.Edit
