import Crpg.Edit.PointerEdit

/-!
# Documents and the campaign index

The documents of a campaign as `crpg-data` identifies them: the manifest with its members, and every
other kind with the identities it declares, its remaining members being a parameter. `campaignIndex`
is the structural check of `loader.rs`: the paths, the layout, the document-local invariants, the
derived index with its duplicates, and the locks.

`accepted_of_campaignIndex` says what an accepted index holds: exactly the objects the documents
declare, each document at a path of its kind. `DataLayer.campaignData` gives the editor its
functions.
-/

set_option autoImplicit false

namespace Crpg.Edit

open Crpg.Core Crpg.Data Crpg.Lib

/-! ### Documents -/

/-- How a type is written and read as JSON. What is written is read back. -/
structure Codec (α : Type) where
  encode : α → Value
  decode : Value → Option α
  decode_encode : ∀ value, decode (encode value) = some value

def textCodec : Codec String where
  encode := .string
  decode := Value.asStr
  decode_encode := fun _ ↦ rfl

/-- The identity a text holds. -/
def decodeUlid (value : Value) : Option Ulid :=
  value.asStr.bind fun text ↦ (parseUlid text).toOption

theorem decodeUlid_text (id : Ulid) : decodeUlid (.string (ulidText id)) = some id := by
  simp only [decodeUlid, Value.asStr, Option.bind_some, parse_ulidText]
  rfl

def textsCodec : Codec (List String) where
  encode := fun texts ↦ .array (texts.map .string)
  decode := fun value ↦
    match value with
    | .array items => items.mapM Value.asStr
    | _ => none
  decode_encode := fun texts ↦ by
    induction texts with
    | nil => rfl
    | cons text rest ih =>
      simp only [List.map_cons, List.mapM_cons, Value.asStr, Option.bind_eq_bind,
        Option.bind_some] at ih ⊢
      rw [ih]
      rfl

/-- An identity, by its text. -/
def ulidCodec : Codec Ulid where
  encode := fun id ↦ .string (ulidText id)
  decode := decodeUlid
  decode_encode := decodeUlid_text

/-- The types of the manifest's members that have a form of their own. -/
structure ManifestTypes where
  PackageId : Type
  Version : Type
  VersionReq : Type
  Requirement : Type
  EntryPoint : Type
  packageId : Codec PackageId
  version : Codec Version
  versionReq : Codec VersionReq
  requirements : Codec (List Requirement)
  entryPoint : Codec EntryPoint

structure Campaign (types : ManifestTypes) where
  id : Ulid
  slug : String
  name : String
  note : Option String
  package : types.PackageId
  version : types.Version
  engine : types.VersionReq
  requires : List types.Requirement
  entryPoint : types.EntryPoint

namespace Campaign

variable {types : ManifestTypes}

def tag : String := "crpg.campaign/1"

/-- The members a manifest may have. -/
def fields : List String :=
  ["_note", "engine", "entry", "id", "name", "package", "requires", "schema", "slug", "version"]

/-- The manifest's serializer. -/
def members (campaign : Campaign types) : List (String × Value) :=
  (campaign.note.elim [] fun note ↦ [("_note", .string note)]) ++
    [("engine", types.versionReq.encode campaign.engine),
      ("entry", types.entryPoint.encode campaign.entryPoint),
      ("id", ulidCodec.encode campaign.id), ("name", .string campaign.name),
      ("package", types.packageId.encode campaign.package),
      ("requires", types.requirements.encode campaign.requires), ("schema", .string tag),
      ("slug", .string campaign.slug), ("version", types.version.encode campaign.version)]

/-- An optional text that may be absent. -/
def decodeNote : Option Value → Option (Option String)
  | none | some .null => some none
  | some (.string note) => some (some note)
  | some _ => none

/-- The manifest's deserializer: no member is unknown or missing. -/
def decode (members : List (String × Value)) : Option (Campaign types) := do
  guard (∀ member ∈ members, member.1 ∈ fields)
  let id ← (Value.getMember members "id").bind ulidCodec.decode
  let slug ← (Value.getMember members "slug").bind textCodec.decode
  let name ← (Value.getMember members "name").bind textCodec.decode
  let note ← decodeNote (Value.getMember members "_note")
  let package ← (Value.getMember members "package").bind types.packageId.decode
  let version ← (Value.getMember members "version").bind types.version.decode
  let engine ← (Value.getMember members "engine").bind types.versionReq.decode
  let requires ← (Value.getMember members "requires").bind types.requirements.decode
  let entryPoint ← (Value.getMember members "entry").bind types.entryPoint.decode
  return ⟨id, slug, name, note, package, version, engine, requires, entryPoint⟩

end Campaign

/-- The kinds of documents that are one identified object. -/
inductive RootKind
  | world | area | creature | item | faction | ruleset | ability | outcomeTable | encounter | effect
deriving DecidableEq

/-- `EventGraph`, with the identities of its nodes. -/
structure EventGraph where
  id : Ulid
  nodes : List Ulid
deriving DecidableEq

/-- What a document other than the manifest declares. -/
inductive Contents
  | root (kind : RootKind) (id : Ulid)
  | dialogue (id : Ulid) (nodes : List Ulid)
  | quest (id : Ulid) (states : List Ulid)
  | graph (graph : EventGraph)
  | placements (placements : List Ulid)
  | triggers (graphs : List EventGraph)
  | locale (locale : String)
  | variableTable
  | campaignLock
  | assetsLock
deriving DecidableEq

/-- `Document`: the manifest, or what another document declares with its remaining members. -/
inductive Document (types : ManifestTypes) (Rest : Type)
  | campaign (campaign : Campaign types)
  | other (contents : Contents) (rest : Rest)

theorem eq_of_parsePath {text : String} {path : SourcePath}
    (hpath : parsePath text = some path) : path = text := by
  unfold parsePath at hpath
  split_ifs at hpath
  exact (Option.some.inj hpath).symm

/-! ### Layout -/

/-- `strip_prefix`. -/
def stripFront (text front : String) : Option (List Char) :=
  if front.toList.isPrefixOf text.toList then some (text.toList.drop front.toList.length) else none

/-- `strip_suffix`. -/
def stripBack (text : List Char) (back : String) : Option (List Char) :=
  if back.toList.isSuffixOf text then some (text.take (text.length - back.toList.length)) else none

/-- `family`. -/
def isFamily (path front : String) : Bool :=
  (stripFront path front).any fun rest ↦ ".json".toList.isSuffixOf rest && 5 < rest.length

/-- `area_file`. -/
def isAreaFile (path name : String) : Bool :=
  ((stripFront path "areas/").bind fun rest ↦ stripBack rest name).any fun middle ↦
    1 < middle.length && middle.getLast? == some '/'

def localeStem (path : String) : Option (List Char) :=
  (stripFront path "locale/").bind fun rest ↦ stripBack rest ".json"

/-- `locale_shape`. -/
def isLocaleShape (path : String) : Bool :=
  (localeStem path).any fun stem ↦ !stem.isEmpty && '/' ∉ stem

def RootKind.matchesPath : RootKind → String → Bool
  | .world, path => isFamily path "worlds/"
  | .area, path => isAreaFile path "area.json"
  | .creature, path => isFamily path "creatures/"
  | .item, path => isFamily path "items/"
  | .faction, path => isFamily path "factions/"
  | .ruleset, path => isFamily path "rulesets/"
  | .ability, path => isFamily path "abilities/"
  | .outcomeTable, path => isFamily path "outcome_tables/"
  | .encounter, path => isFamily path "encounters/"
  | .effect, path => isFamily path "effects/"

/-- Where a document may be. -/
def Contents.matchesPath : Contents → String → Bool
  | .root kind _, path => kind.matchesPath path
  | .dialogue _ _, path => isFamily path "dialogue/"
  | .quest _ _, path => isFamily path "quests/"
  | .graph _, path => isFamily path "scripts/graphs/"
  | .placements _, path => isAreaFile path "placements.json"
  | .triggers _, path => isAreaFile path "triggers.json"
  | .locale name, path => isLocaleShape path && localeStem path == some name.toList
  | .variableTable, path => path == "variables/campaign_state.json"
  | .campaignLock, path => path == "campaign.lock"
  | .assetsLock, path => path == "assets/assets.lock"

section Layout

variable {types : ManifestTypes} {Rest : Type}

def Document.matchesPath : Document types Rest → String → Bool
  | .campaign _, path => path == manifestPath
  | .other contents _, path => contents.matchesPath path

/-- A required path holds its required kind. -/
def Document.fitsReserved (document : Document types Rest) (path : String) : Bool :=
  if path = manifestPath then
    match document with
    | .campaign _ => true
    | .other _ _ => false
  else if path = "campaign.lock" then
    match document with
    | .other .campaignLock _ => true
    | _ => false
  else if path = "assets/assets.lock" then
    match document with
    | .other .assetsLock _ => true
    | _ => false
  else true

def Document.isLock : Document types Rest → Bool
  | .other .campaignLock _ | .other .assetsLock _ => true
  | _ => false

/-- The failures of the structural check. -/
inductive LayoutError
  | layout (path : Option SourcePath) (message : String)
  | duplicateId (id : Ulid) (first second : SourcePath)
  | data (error : DataError)
deriving DecidableEq

/-- `to_ascii_lowercase`. -/
def lowercase (path : SourcePath) : String := String.ofList (path.toList.map Char.toLower)

/-- The loop of `check_paths`, with the lowercase paths seen. -/
def checkCollisions : List String → List SourcePath → Except LayoutError Unit
  | _, [] => .ok ()
  | seen, path :: rest =>
    if lowercase path ∈ seen then .error (.layout (some path) "ASCII-case path collision")
    else checkCollisions (lowercase path :: seen) rest

def requiredPaths : List SourcePath := ["campaign.json", "campaign.lock", "assets/assets.lock"]

def checkPaths (paths : List SourcePath) : Except LayoutError Unit := do
  checkCollisions [] paths
  match requiredPaths.find? fun path ↦ path ∉ paths with
  | some path => .error (.layout none ("missing required file: " ++ path))
  | none => .ok ()

def checkLayout (documents : BTreeMap SourcePath (Document types Rest)) : Except LayoutError Unit :=
  match documents.entries.find? fun entry ↦
      !(entry.2.matchesPath entry.1 && entry.2.fitsReserved entry.1) with
  | some entry =>
    .error (.layout (some entry.1) "document kind does not match its storage path")
  | none => .ok ()

end Layout

/-! ### Objects -/

/-- `ObjectOccurrence`. -/
structure Occurrence where
  id : Ulid
  kind : ObjectKind
  path : SourcePath
  pointer : String
deriving DecidableEq

def Occurrence.entry (occurrence : Occurrence) : IndexEntry :=
  ⟨occurrence.kind, occurrence.path, occurrence.pointer⟩

/-- `kind` of a root object. -/
def RootKind.objectKind : RootKind → ObjectKind
  | .world => .world
  | .area => .area
  | .creature => .creature
  | .item => .item
  | .faction => .faction
  | .ruleset => .ruleset
  | .ability => .ability
  | .outcomeTable => .outcomeTable
  | .encounter => .encounter
  | .effect => .effect

/-- The identified entries of a list, under a pointer. -/
def listed (path : SourcePath) (kind : ObjectKind) (base : String) (ids : List Ulid) :
    List Occurrence :=
  ids.mapIdx fun index id ↦ ⟨id, kind, path, base ++ "/" ++ toString index⟩

def graphOccurrences (path : SourcePath) (pointer : String) (graph : EventGraph) :
    List Occurrence :=
  ⟨graph.id, .graph, path, pointer⟩ :: listed path .node (pointer ++ "/nodes") graph.nodes

/-- The objects of a document other than the manifest. -/
def Contents.occurrences (path : SourcePath) : Contents → List Occurrence
  | .root kind id => [⟨id, kind.objectKind, path, ""⟩]
  | .dialogue id nodes => ⟨id, .dialogue, path, ""⟩ :: listed path .dialogueNode "/nodes" nodes
  | .quest id states => ⟨id, .quest, path, ""⟩ :: listed path .questState "/states" states
  | .graph found => graphOccurrences path "" found
  | .placements ids => listed path .placement "/placements" ids
  | .triggers graphs =>
    (graphs.mapIdx fun index graph ↦
      graphOccurrences path ("/graphs/" ++ toString index) graph).flatten
  | .locale _ | .variableTable | .campaignLock | .assetsLock => []

section Index

variable {types : ManifestTypes} {Rest : Type}

def Document.occurrences (path : SourcePath) : Document types Rest → List Occurrence
  | .campaign manifest => [⟨manifest.id, .campaign, path, ""⟩]
  | .other contents _ => contents.occurrences path

def objectOccurrences (documents : BTreeMap SourcePath (Document types Rest)) : List Occurrence :=
  documents.entries.flatMap fun entry ↦ entry.2.occurrences entry.1

/-- The loop of `build_index`. -/
def addOccurrences : Index → List Occurrence → Except LayoutError Index
  | index, [] => .ok index
  | index, occurrence :: rest =>
    match index.get? occurrence.id with
    | some first => .error (.duplicateId occurrence.id first.path occurrence.path)
    | none => addOccurrences (index.insert occurrence.id occurrence.entry) rest

def buildIndex (documents : BTreeMap SourcePath (Document types Rest)) : Except LayoutError Index :=
  addOccurrences .empty (objectOccurrences documents)

end Index

/-- What the editor's functions of `crpg-data` are made of: the types of the manifest, the JSON of
the other documents, the document-local checks, the locks, and the parser and printer. -/
structure DataLayer where
  types : ManifestTypes
  Rest : Type
  Placement : Type
  Transform : Type
  Diagnostic : Type
  toValue : Contents → Rest → Except DataError Value
  fromValue : Value → Except DataError (Contents × Rest)
  validateLocal : Contents → Rest → Except DataError Unit
  checkLocks : BTreeMap SourcePath (Document types Rest) → Except DataError Unit
  parse : List UInt8 → Except DataError Value
  print : Value → Except DataError (List UInt8)
  readDocument : List UInt8 → Option (Document types Rest)
  placementId : Placement → Ulid
  placementsRest : Ulid → List Placement → Rest
  placementJson : Placement → Except DataError (List UInt8)
  transformJson : Transform → Except DataError (List UInt8)
  display : DataError → String
  diagnostic : LayoutError → Diagnostic
  invalidPath : String → Diagnostic
  validate : BTreeMap SourcePath (Document types Rest) → Index → List Diagnostic

namespace DataLayer

variable (layer : DataLayer)

/-- A document of the layer. -/
abbrev Doc := Document layer.types layer.Rest

/-- `to_value`. -/
def documentValue : layer.Doc → Except DataError Value
  | .campaign manifest => .ok (.object manifest.members)
  | .other contents rest => layer.toValue contents rest

/-- `from_value`: the tag selects the kind. -/
def documentOf (value : Value) : Except DataError layer.Doc :=
  if value.schemaTag = some Campaign.tag then
    match value.asObject.bind Campaign.decode with
    | some campaign => .ok (.campaign campaign)
    | none => .error (.malformed "campaign")
  else (layer.fromValue value).map fun parts ↦ .other parts.1 parts.2

/-- `validate_local`. -/
def checkLocal : layer.Doc → Except DataError Unit
  | .campaign _ => .ok ()
  | .other contents rest => layer.validateLocal contents rest

def decodeCurrent (value : Value) : Except DataError layer.Doc := do
  let document ← layer.documentOf value
  layer.checkLocal document
  return document

def writeDocument (document : layer.Doc) : Except DataError (List UInt8) := do
  layer.checkLocal document
  let value ← layer.documentValue document
  layer.print value

/-- `map_err` to an edited document's error. -/
def orDocumentError {α : Type} : Except DataError α → Except PointerEditError α
  | .ok value => .ok value
  | .error error => .error (.document (layer.display error))

def editDocument (document : layer.Doc) (edit : PointerEdit) :
    Except PointerEditError layer.Doc := do
  let (parents, last) ← editableTokens edit.pointer
  let op ← edit.op fun bytes ↦ (layer.parse bytes).mapError fun error ↦
    .value (layer.display error)
  let root ← layer.orDocumentError (layer.documentValue document)
  let edited ← editValue op last parents root
  let decoded ← layer.orDocumentError (layer.decodeCurrent edited)
  let _ ← layer.orDocumentError (layer.writeDocument decoded)
  return decoded

/-- `map_err` of a data error. -/
def orData {α : Type} : Except DataError α → Except LayoutError α
  | .ok value => .ok value
  | .error error => .error (.data error)

/-- `structural_check`, which is `campaign_index`. -/
def campaignIndex (documents : BTreeMap SourcePath layer.Doc) : Except LayoutError Index := do
  checkPaths documents.keys
  checkLayout documents
  documents.values.forM fun document ↦ orData (layer.checkLocal document)
  let index ← buildIndex documents
  orData (layer.checkLocks documents)
  return index

/-- What the editor calls. -/
abbrev campaignData : CampaignData where
  Document := layer.Doc
  Placement := layer.Placement
  Transform := layer.Transform
  Diagnostic := layer.Diagnostic
  readDocument := layer.readDocument
  writeDocument := fun document ↦
    (layer.writeDocument document).mapError fun error ↦ layer.diagnostic (.data error)
  campaignIndex := fun documents ↦ (layer.campaignIndex documents).mapError layer.diagnostic
  editDocument := layer.editDocument
  placementJson := fun placement ↦
    (layer.placementJson placement).mapError fun error ↦ layer.diagnostic (.data error)
  transformJson := fun transform ↦
    (layer.transformJson transform).mapError fun error ↦ layer.diagnostic (.data error)
  placementsDocument := fun area placements ↦
    .other (.placements (placements.map layer.placementId)) (layer.placementsRest area placements)
  isLock := Document.isLock
  invalidPath := layer.invalidPath
  validate := layer.validate

end DataLayer

/-! ### What an accepted index holds -/

section Accepted

variable {types : ManifestTypes} {Rest : Type}

variable {path : SourcePath}

theorem path_of_mem_listed {kind : ObjectKind} {base : String} {ids : List Ulid}
    {occurrence : Occurrence} (hoccurrence : occurrence ∈ listed path kind base ids) :
    occurrence.path = path := by
  obtain ⟨index, hindex, rfl⟩ := List.mem_mapIdx.mp hoccurrence
  rfl

theorem path_of_mem_graphOccurrences {pointer : String} {graph : EventGraph}
    {occurrence : Occurrence} (hoccurrence : occurrence ∈ graphOccurrences path pointer graph) :
    occurrence.path = path := by
  rw [graphOccurrences, List.mem_cons] at hoccurrence
  obtain rfl | hnode := hoccurrence
  · rfl
  · exact path_of_mem_listed hnode

theorem Document.path_of_mem_occurrences {document : Document types Rest}
    {occurrence : Occurrence} (hoccurrence : occurrence ∈ document.occurrences path) :
    occurrence.path = path := by
  have hrooted : ∀ {id : Ulid} {kind child : ObjectKind} {base : String} {ids : List Ulid},
      occurrence ∈ (⟨id, kind, path, ""⟩ :: listed path child base ids : List Occurrence) →
        occurrence.path = path := by
    intro id kind child base ids hmem
    rw [List.mem_cons] at hmem
    obtain rfl | hchild := hmem
    · rfl
    · exact path_of_mem_listed hchild
  cases document with
  | campaign manifest =>
    rw [List.mem_singleton.mp hoccurrence]
  | other contents rest =>
    cases contents with
    | root kind id => rw [List.mem_singleton.mp hoccurrence]
    | dialogue id nodes => exact hrooted hoccurrence
    | quest id states => exact hrooted hoccurrence
    | graph graph => exact path_of_mem_graphOccurrences hoccurrence
    | placements ids => exact path_of_mem_listed hoccurrence
    | triggers graphs =>
      obtain ⟨found, hfound, hmem⟩ := List.mem_flatten.mp hoccurrence
      obtain ⟨index, hindex, rfl⟩ := List.mem_mapIdx.mp hfound
      exact path_of_mem_graphOccurrences hmem
    | locale name => cases hoccurrence
    | variableTable => cases hoccurrence
    | campaignLock => cases hoccurrence
    | assetsLock => cases hoccurrence

theorem get?_addOccurrences {index final : Index} {occurrences : List Occurrence}
    (hadd : addOccurrences index occurrences = .ok final) (id : Ulid) (entry : IndexEntry) :
    final.get? id = some entry ↔ index.get? id = some entry ∨
      ∃ occurrence ∈ occurrences, occurrence.id = id ∧ occurrence.entry = entry := by
  induction occurrences generalizing index with
  | nil =>
    cases hadd
    simp
  | cons first rest ih =>
    simp only [addOccurrences] at hadd
    split at hadd
    · cases hadd
    · rename_i hfresh
      rw [ih hadd, BTreeMap.get?_insert]
      simp only [List.mem_cons, exists_eq_or_imp]
      rw [← or_assoc]
      refine or_congr_left ?_
      by_cases hid : id = first.id
      · rw [if_pos hid, hid, hfresh, Option.some.injEq]
        simp
      · rw [if_neg hid]
        have hne : first.id ≠ id := fun heq ↦ hid heq.symm
        simp [hne]

/-- The structural check accepts documents with an index: the required files are there, every
document fits its path, and the index holds exactly the objects of the documents. -/
structure Accepted (documents : BTreeMap SourcePath (Document types Rest)) (index : Index) :
    Prop where
  required : ∀ path ∈ requiredPaths, ∃ document, documents.get? path = some document
  placed : ∀ path document, documents.get? path = some document →
    document.matchesPath path = true ∧ document.fitsReserved path = true
  objects : ∀ id entry, index.get? id = some entry ↔ ∃ path document,
    documents.get? path = some document ∧
      ∃ occurrence ∈ document.occurrences path, occurrence.id = id ∧ occurrence.entry = entry

theorem required_of_checkPaths {paths : List SourcePath} (hpaths : checkPaths paths = .ok ()) :
    ∀ path ∈ requiredPaths, path ∈ paths := by
  obtain ⟨_, -, hrequired⟩ := Result.except_bind_eq_ok hpaths
  intro path hpath
  split at hrequired
  · cases hrequired
  · rename_i hnone
    simpa using List.find?_eq_none.mp hnone path hpath

theorem placed_of_checkLayout {documents : BTreeMap SourcePath (Document types Rest)}
    (hlayout : checkLayout documents = .ok ()) {document : Document types Rest}
    (hdocument : documents.get? path = some document) :
    document.matchesPath path = true ∧ document.fitsReserved path = true := by
  unfold checkLayout at hlayout
  split at hlayout
  · cases hlayout
  · rename_i hnone
    have hentry := List.find?_eq_none.mp hnone (path, document)
      (documents.mem_entries_iff.mpr hdocument)
    simpa using hentry

theorem accepted_of_campaignIndex {layer : DataLayer} {documents : BTreeMap SourcePath layer.Doc}
    {index : Index} (hindex : layer.campaignIndex documents = .ok index) :
    Accepted documents index := by
  obtain ⟨_, hpaths, hindex⟩ := Result.except_bind_eq_ok hindex
  obtain ⟨_, hlayout, hindex⟩ := Result.except_bind_eq_ok hindex
  obtain ⟨_, -, hindex⟩ := Result.except_bind_eq_ok hindex
  obtain ⟨built, hbuilt, hindex⟩ := Result.except_bind_eq_ok hindex
  obtain ⟨_, -, hindex⟩ := Result.except_bind_eq_ok hindex
  cases hindex
  refine ⟨fun path hpath ↦ ?_, fun path document ↦ placed_of_checkLayout hlayout,
    fun id entry ↦ ?_⟩
  · exact documents.mem_keys_iff.mp (required_of_checkPaths hpaths path hpath)
  · rw [get?_addOccurrences hbuilt, BTreeMap.get?_empty]
    simp only [reduceCtorEq, false_or, objectOccurrences, List.mem_flatMap]
    constructor
    · rintro ⟨occurrence, ⟨⟨path, document⟩, hentry, hmem⟩, hfound⟩
      exact ⟨path, document, documents.mem_entries_iff.mp hentry, occurrence, hmem, hfound⟩
    · rintro ⟨path, document, hdocument, occurrence, hmem, hfound⟩
      exact ⟨occurrence, ⟨(path, document), documents.mem_entries_iff.mpr hdocument, hmem⟩, hfound⟩

end Accepted

end Crpg.Edit
