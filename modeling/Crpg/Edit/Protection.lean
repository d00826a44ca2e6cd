import Crpg.Edit.CampaignIndex
import Crpg.Edit.UndoRun

/-!
# Protection and identity

What accepted commands keep. The lock documents and the protected members of the manifest stay as
they are, and the identified objects of the campaign change only as the command's rule says. An
accepted index ties both to the documents: locks and the manifest are at their own paths, and the
index holds the objects the documents declare, so comparing the touched paths is comparing the
campaign.

`protects_applyOne` and `keeps_applyOne` are the two halves for one command on any working copy with
an accepted index. `edits_protect` is the result over runs.
-/

set_option autoImplicit false

namespace Crpg.Edit

open Crpg.Core Crpg.Data Crpg.Lib
open Result (except_bind_eq_ok)
open List (all_eq_true mem_cons mem_map mem_singleton)

/-! ### What is protected -/

section Protects

variable {types : ManifestTypes} {Rest : Type}

/-- The protected members of a manifest. -/
def Campaign.pinned (manifest : Campaign types) :
    types.PackageId × types.VersionReq × List types.Requirement :=
  (manifest.package, manifest.engine, manifest.requires)

structure Protects (before after : BTreeMap SourcePath (Document types Rest)) : Prop where
  locks : ∀ path document, document.isLock = true →
    (after.get? path = some document ↔ before.get? path = some document)
  manifest : ∀ path manifest, before.get? path = some (.campaign manifest) →
    ∃ next, after.get? path = some (.campaign next) ∧ next.pinned = manifest.pinned

theorem Protects.refl (documents : BTreeMap SourcePath (Document types Rest)) :
    Protects documents documents :=
  ⟨fun _ _ _ ↦ Iff.rfl, fun _ manifest hmanifest ↦ ⟨manifest, hmanifest, rfl⟩⟩

theorem Protects.trans {first middle last : BTreeMap SourcePath (Document types Rest)}
    (hfirst : Protects first middle) (hlast : Protects middle last) : Protects first last := by
  constructor
  · intro path document hlock
    exact (hlast.locks path document hlock).trans (hfirst.locks path document hlock)
  · intro path manifest hmanifest
    obtain ⟨between, hbetween, hpinned⟩ := hfirst.manifest path manifest hmanifest
    obtain ⟨next, hnext, hsame⟩ := hlast.manifest path between hbetween
    exact ⟨next, hnext, hsame.trans hpinned⟩

end Protects

/-! ### Identified objects -/

def objects (index : Index) : Set (Ulid × ObjectKind) :=
  {pair | ∃ entry, index.get? pair.1 = some entry ∧ entry.kind = pair.2}

def EditCommand.Keeps {data : CampaignData} (before after : Set (Ulid × ObjectKind)) :
    EditCommand data → Prop
  | .setValue _ _ _ | .movePlacement _ _ | .renameDocument _ _ => after = before
  | .insertValue _ _ _ | .placeInstance _ _ | .createDocument _ _ => before ⊆ after
  | .removeValue _ _ | .deleteObject _ | .deleteDocument _ => after ⊆ before

inductive Follows {data : CampaignData} :
    Set (Ulid × ObjectKind) → List (EditCommand data) → Set (Ulid × ObjectKind) → Prop
  | nil (found : Set (Ulid × ObjectKind)) : Follows found [] found
  | cons {before middle after : Set (Ulid × ObjectKind)} {command : EditCommand data}
      {rest : List (EditCommand data)} (hkeeps : command.Keeps before middle)
      (hrest : Follows middle rest after) : Follows before (command :: rest) after

theorem EditCommand.keeps_self {data : CampaignData} (command : EditCommand data)
    (found : Set (Ulid × ObjectKind)) : command.Keeps found found := by
  cases command with
  | createDocument path document => exact subset_rfl
  | deleteDocument path => exact subset_rfl
  | renameDocument source target => rfl
  | setValue target pointer value => rfl
  | insertValue target pointer value => exact subset_rfl
  | removeValue target pointer => exact subset_rfl
  | deleteObject id => exact subset_rfl
  | placeInstance area placement => exact subset_rfl
  | movePlacement placement transform => rfl

namespace Follows

variable {data : CampaignData}

theorem refl (found : Set (Ulid × ObjectKind)) (commands : List (EditCommand data)) :
    Follows found commands found := by
  induction commands with
  | nil => exact .nil found
  | cons command rest ih => exact .cons (command.keeps_self found) ih

theorem append {before middle after : Set (Ulid × ObjectKind)}
    {first second : List (EditCommand data)} (hfirst : Follows before first middle)
    (hsecond : Follows middle second after) : Follows before (first ++ second) after := by
  induction hfirst with
  | nil found => exact hsecond
  | cons hkeeps _ ih => exact .cons hkeeps (ih hsecond)

end Follows

theorem mem_identities_iff {index : Index} {path : SourcePath} {pair : Ulid × ObjectKind} :
    pair ∈ identities index path ↔
      ∃ entry, index.get? pair.1 = some entry ∧ entry.path = path ∧ entry.kind = pair.2 := by
  simp only [identities, mem_map, List.mem_filter, decide_eq_true_eq]
  constructor
  · rintro ⟨⟨id, entry⟩, ⟨hentry, hpath⟩, rfl⟩
    exact ⟨entry, index.mem_entries_iff.mp hentry, hpath, rfl⟩
  · rintro ⟨entry, hentry, hpath, hkind⟩
    exact ⟨(pair.1, entry), ⟨index.mem_entries_iff.mpr hentry, hpath⟩, by rw [hkind]⟩

theorem mem_objects_iff {index : Index} {pair : Ulid × ObjectKind} :
    pair ∈ objects index ↔ ∃ path, pair ∈ identities index path := by
  simp only [mem_identities_iff]
  constructor
  · rintro ⟨entry, hentry, hkind⟩
    exact ⟨entry.path, entry, hentry, rfl, hkind⟩
  · rintro ⟨path, entry, hentry, -, hkind⟩
    exact ⟨entry, hentry, hkind⟩

/-! ### The check of identities -/

theorem keepsRule_of_smallestChanged {rule : IdentityRule} {old new : List (Ulid × ObjectKind)}
    (hsmallest : smallestChanged old new = none) : keepsRule rule old new = true := by
  simp only [smallestChanged, List.min?_eq_none_iff, List.map_eq_nil_iff, List.append_eq_nil_iff,
    List.filter_eq_nil_iff, decide_eq_true_eq, not_not] at hsmallest
  have hold : old.all (· ∈ new) = true := by
    rw [all_eq_true]
    exact fun pair hpair ↦ decide_eq_true (hsmallest.1 pair hpair)
  have hnew : new.all (· ∈ old) = true := by
    rw [all_eq_true]
    exact fun pair hpair ↦ decide_eq_true (hsmallest.2 pair hpair)
  cases rule with
  | grow => exact hold
  | shrink => exact hnew
  | unchecked => exact Bool.and_eq_true_iff.mpr ⟨hold, hnew⟩
  | equal => exact Bool.and_eq_true_iff.mpr ⟨hold, hnew⟩
  | rename source target => exact Bool.and_eq_true_iff.mpr ⟨hold, hnew⟩

theorem keepsRule_of_checkIdentity {data : CampaignData} {old new : Index} {index : ℕ}
    {rule : IdentityRule} {touched : List SourcePath}
    (hcheck : checkIdentity old new index rule touched = (.ok () : Answer data Unit)) :
    ∀ pair ∈ identityPairs rule touched,
      keepsRule rule (identities old pair.1) (identities new pair.2) = true := by
  unfold checkIdentity at hcheck
  generalize identityPairs rule touched = pairs at hcheck ⊢
  induction pairs with
  | nil => nofun
  | cons first rest ih =>
    rw [List.forM_eq_forM, List.forM_cons] at hcheck
    obtain ⟨_, hfirst, hrest⟩ := except_bind_eq_ok hcheck
    intro pair hpair
    rw [mem_cons] at hpair
    obtain rfl | hpair := hpair
    · by_contra hbroken
      rw [if_neg hbroken] at hfirst
      split at hfirst
      · cases hfirst
      · rename_i hnone
        exact hbroken (keepsRule_of_smallestChanged hnone)
    · exact ih hrest pair hpair

/-! ### Accepted working copies -/

section Accepted

variable {types : ManifestTypes} {Rest : Type}
  {documents after : BTreeMap SourcePath (Document types Rest)} {index next : Index}

variable {path : SourcePath}

theorem Accepted.mem_identities_iff (haccepted : Accepted documents index)
    {pair : Ulid × ObjectKind} : pair ∈ identities index path ↔ ∃ document,
      documents.get? path = some document ∧
        ∃ occurrence ∈ document.occurrences path, (occurrence.id, occurrence.kind) = pair := by
  rw [Edit.mem_identities_iff]
  constructor
  · rintro ⟨entry, hentry, hpath, hkind⟩
    obtain ⟨found, document, hdocument, occurrence, hmem, hid, rfl⟩ :=
      (haccepted.objects pair.1 entry).mp hentry
    obtain rfl : found = path := (Document.path_of_mem_occurrences hmem).symm.trans hpath
    exact ⟨document, hdocument, occurrence, hmem, Prod.ext hid hkind⟩
  · rintro ⟨document, hdocument, occurrence, hmem, rfl⟩
    refine ⟨occurrence.entry, ?_, Document.path_of_mem_occurrences hmem, rfl⟩
    exact (haccepted.objects _ _).mpr ⟨path, document, hdocument, occurrence, hmem, rfl, rfl⟩

theorem Accepted.identities_of_unused (haccepted : Accepted documents index)
    (hunused : documents.get? path = none) (pair : Ulid × ObjectKind) :
    pair ∉ identities index path := by
  intro hpair
  obtain ⟨document, hdocument, -⟩ := haccepted.mem_identities_iff.mp hpair
  rw [hunused] at hdocument
  cases hdocument

/-- Where documents are the same, so are the identities; elsewhere it is enough that they are found
again. -/
theorem objects_subset (hbefore : Accepted documents index) (hafter : Accepted after next)
    {touched : List SourcePath}
    (hframe : ∀ path, path ∉ touched → after.get? path = documents.get? path)
    (hfound : ∀ path ∈ touched, ∀ pair ∈ identities index path, pair ∈ objects next) :
    objects index ⊆ objects next := by
  intro pair hpair
  obtain ⟨path, hpath⟩ := mem_objects_iff.mp hpair
  by_cases htouched : path ∈ touched
  · exact hfound path htouched pair hpath
  · rw [hbefore.mem_identities_iff, ← hframe path htouched, ← hafter.mem_identities_iff] at hpath
    exact mem_objects_iff.mpr ⟨path, hpath⟩

section

variable (haccepted : Accepted documents index)
include haccepted

theorem Accepted.campaign_at {manifest : Campaign types}
    (hmanifest : documents.get? path = some (.campaign manifest)) : path = manifestPath := by
  have hplaced := (haccepted.placed path _ hmanifest).1
  simpa [Document.matchesPath] using hplaced

theorem Accepted.manifest :
    ∃ manifest, documents.get? manifestPath = some (.campaign manifest) := by
  obtain ⟨document, hdocument⟩ := haccepted.required manifestPath (List.mem_cons_self ..)
  cases document with
  | campaign manifest => exact ⟨manifest, hdocument⟩
  | other contents rest =>
    have hfits := (haccepted.placed manifestPath _ hdocument).2
    simp [Document.fitsReserved] at hfits

theorem Accepted.manifest_entry {id : Ulid} {entry : IndexEntry}
    (hentry : index.get? id = some entry) (hpath : entry.path = manifestPath) :
    entry.kind = .campaign ∧ entry.pointer = "" := by
  obtain ⟨manifest, hmanifest⟩ := haccepted.manifest
  obtain ⟨path, document, hdocument, occurrence, hmem, -, rfl⟩ :=
    (haccepted.objects id entry).mp hentry
  obtain rfl : path = manifestPath := (Document.path_of_mem_occurrences hmem).symm.trans hpath
  rw [hmanifest, Option.some.injEq] at hdocument
  rw [← hdocument] at hmem
  rw [mem_singleton.mp hmem]
  exact ⟨rfl, rfl⟩

theorem Accepted.mem_lockPaths {document : Document types Rest}
    (hdocument : documents.get? path = some document) (hlock : document.isLock = true) :
    path ∈ lockPaths := by
  have hplaced := (haccepted.placed path document hdocument).1
  unfold Document.isLock at hlock
  split at hlock
  · have hpath : path = "campaign.lock" := by
      simpa [Document.matchesPath, Contents.matchesPath] using hplaced
    simp [hpath, lockPaths]
  · have hpath : path = "assets/assets.lock" := by
      simpa [Document.matchesPath, Contents.matchesPath] using hplaced
    simp [hpath, lockPaths]
  · cases hlock

end

end Accepted

/-! ### Resolution -/

section Resolution

variable {data : CampaignData} {work : Working data} {index : ℕ}

theorem entry_eq_ok {id : Ulid} {found : IndexEntry} (hentry : entry work index id = .ok found) :
    work.index.get? id = some found := by
  unfold entry at hentry
  split at hentry
  · rename_i known hknown
    cases hentry
    exact hknown
  · cases hentry

theorem entryOfKind_eq_ok {id : Ulid} {expected : ObjectKind} {found : IndexEntry}
    (hentry : entryOfKind work index id expected = .ok found) :
    work.index.get? id = some found ∧ found.kind = expected := by
  obtain ⟨known, hknown, hentry⟩ := except_bind_eq_ok hentry
  obtain ⟨_, hkind, hentry⟩ := except_bind_eq_ok hentry
  cases hentry
  refine ⟨entry_eq_ok hknown, ?_⟩
  unfold refuseIf at hkind
  split_ifs at hkind with hwrong
  exact not_not.mp hwrong

variable {path : SourcePath} {resolved : Resolved data}

theorem unused_eq_ok (hunused : unused work index path = .ok ()) :
    work.documents.get? path = none := by
  unfold unused at hunused
  split_ifs at hunused with hcontains
  simpa [BTreeMap.contains] using hcontains

theorem existing_eq_ok (hexisting : existing work index path = .ok ()) :
    ∃ document, work.documents.get? path = some document := by
  unfold existing at hexisting
  split_ifs at hexisting with hcontains
  exact Option.isSome_iff_exists.mp hcontains

theorem pointerCommand_eq_ok {target : EditTarget} {pointer : String}
    {make : String → PointerEdit} {rule : IdentityRule}
    (hresolved : pointerCommand work index target pointer make rule = .ok resolved) :
    ∃ path absolute relative, resolved = ⟨.edit path (make absolute) relative, rule,
      if path = manifestPath then some (path, absolute) else none⟩ := by
  obtain ⟨⟨path, absolute, relative⟩, -, hresolved⟩ := except_bind_eq_ok hresolved
  cases hresolved
  exact ⟨path, absolute, relative, rfl⟩

theorem placements_ne_manifestPath (directory : String) :
    directory ++ "placements.json" ≠ manifestPath := by
  intro heq
  have hlength := congrArg String.length heq
  rw [String.length_append] at hlength
  have hplacements : "placements.json".length = 15 := by decide
  have hmanifest : manifestPath.length = 13 := by decide
  omega

theorem resolve_placeInstance {area : Ulid} {placement : data.Placement}
    (hresolved : resolve work index (.placeInstance area placement) = .ok resolved) :
    resolved.rule = .grow ∧ manifestPath ∉ resolved.mutation.touched := by
  obtain ⟨found, -, hresolved⟩ := except_bind_eq_ok hresolved
  simp only at hresolved
  split at hresolved
  · cases hresolved
  · rename_i path hpath
    have hother : manifestPath ≠ path := by
      rw [eq_of_parsePath hpath]
      exact (placements_ne_manifestPath _).symm
    cases hresolved
    split_ifs
    · exact ⟨rfl, fun hmem ↦ hother (mem_singleton.mp hmem)⟩
    · exact ⟨rfl, fun hmem ↦ hother (mem_singleton.mp hmem)⟩

theorem checkProtection_eq_ok (hcheck : checkProtection index resolved = .ok ()) :
    (∀ path ∈ resolved.mutation.touched, path ∉ lockPaths) ∧
      ∀ path pointer, resolved.manifestPointer = some (path, pointer) →
        ∀ tokens first, pointerTokens pointer = .ok tokens → tokens.head? = some first →
          first ∉ manifestProtected := by
  unfold checkProtection at hcheck
  split at hcheck
  · cases hcheck
  · rename_i hnone
    obtain ⟨_, -, hguard⟩ := except_bind_eq_ok hcheck
    constructor
    · intro path hpath
      simpa using List.find?_eq_none.mp hnone path hpath
    · intro path pointer hpointer tokens first htokens hfirst
      rw [hpointer] at hguard
      cases tokens with
      | nil => cases hfirst
      | cons head rest =>
        cases hfirst
        simp only [manifestGuard, htokens, refuseIf] at hguard
        split_ifs at hguard with hmember
        exact hmember

end Resolution

/-! ### The manifest -/

section Manifest

variable {layer : DataLayer}

theorem getMember_members {types : ManifestTypes} (manifest : Campaign types) :
    Value.getMember manifest.members "package" = some (types.packageId.encode manifest.package) ∧
    Value.getMember manifest.members "engine" = some (types.versionReq.encode manifest.engine) ∧
    Value.getMember manifest.members "requires" =
      some (types.requirements.encode manifest.requires) := by
  unfold Campaign.members
  cases manifest.note with
  | none => simp [Value.getMember, Entries.lookup]
  | some note => simp [Value.getMember, Entries.lookup]

theorem pinned_of_decode {types : ManifestTypes} {manifest next : Campaign types}
    {members : List (String × Value)} (hdecode : Campaign.decode members = some next)
    (hkept : ∀ key ∈ manifestProtected,
      Value.getMember members key = Value.getMember manifest.members key) :
    next.pinned = manifest.pinned := by
  obtain ⟨hpackage, hengine, hrequires⟩ := getMember_members manifest
  rw [← hkept "package" (by decide)] at hpackage
  rw [← hkept "engine" (by decide)] at hengine
  rw [← hkept "requires" (by decide)] at hrequires
  simp only [Campaign.decode, Option.bind_eq_bind, Option.bind_eq_some_iff, hpackage, hengine,
    hrequires, Option.some.injEq, Option.pure_def, exists_eq_left',
    Codec.decode_encode] at hdecode
  obtain ⟨_, -, id, -, slug, -, name, -, note, -, version, -, entryPoint, -, rfl⟩ := hdecode
  rfl

theorem orDocumentError_eq_ok {α : Type} {result : Except DataError α} {value : α}
    (hresult : layer.orDocumentError result = .ok value) : result = .ok value := by
  cases result with
  | ok found => exact congrArg _ (Except.ok.inj hresult)
  | error error => cases hresult

/-- A value that is read as a manifest is the JSON of one. -/
theorem decode_of_decodeCurrent {members : List (String × Value)} {next : Campaign layer.types}
    (hdecode : layer.decodeCurrent (.object members) = .ok (.campaign next)) :
    Campaign.decode members = some next := by
  obtain ⟨document, hdocument, hdecode⟩ := except_bind_eq_ok hdecode
  obtain ⟨_, -, hdecode⟩ := except_bind_eq_ok hdecode
  cases hdecode
  unfold DataLayer.documentOf at hdocument
  split_ifs at hdocument
  · split at hdocument
    · rename_i found hfound
      cases hdocument
      exact hfound
    · cases hdocument
  · cases hvalue : layer.fromValue (.object members) with
    | ok parts =>
      rw [hvalue] at hdocument
      cases hdocument
    | error error =>
      rw [hvalue] at hdocument
      cases hdocument

theorem pinned_editDocument {manifest next : Campaign layer.types} {edit : PointerEdit}
    (hedit : layer.editDocument (.campaign manifest) edit = .ok (.campaign next))
    (hfirst : ∀ tokens first, pointerTokens edit.pointer = .ok tokens →
      tokens.head? = some first → first ∉ manifestProtected) : next.pinned = manifest.pinned := by
  obtain ⟨⟨parents, last⟩, htokens, hedit⟩ := except_bind_eq_ok hedit
  obtain ⟨op, -, hedit⟩ := except_bind_eq_ok hedit
  obtain ⟨root, hroot, hedit⟩ := except_bind_eq_ok hedit
  obtain ⟨edited, hedited, hedit⟩ := except_bind_eq_ok hedit
  obtain ⟨decoded, hdecoded, hedit⟩ := except_bind_eq_ok hedit
  obtain ⟨bytes, -, hedit⟩ := except_bind_eq_ok hedit
  cases hedit
  cases hroot
  obtain ⟨left, rfl, hkept⟩ := getMember_editValue hedited
  apply pinned_of_decode (decode_of_decodeCurrent (orDocumentError_eq_ok hdecoded))
  intro key hkey
  apply hkept
  intro hhead
  exact hfirst _ key (editableTokens_eq_ok htokens).1 hhead hkey

end Manifest

/-! ### One command -/

section Command

variable {layer : DataLayer} {work next : Working layer.campaignData} {index : ℕ}
  {command : EditCommand layer.campaignData}

theorem accepted_of_mapError {documents : BTreeMap SourcePath layer.Doc} {found : Index}
    (hindex : layer.campaignData.campaignIndex documents = .ok found) :
    Accepted documents found := by
  apply @accepted_of_campaignIndex layer
  cases hresult : layer.campaignIndex documents with
  | ok value =>
    simp only [DataLayer.campaignData, hresult, Except.mapError] at hindex
    exact congrArg _ (Except.ok.inj hindex)
  | error error =>
    simp only [DataLayer.campaignData, hresult, Except.mapError] at hindex
    cases hindex

/-- An accepted command, with what its checks established. -/
structure AppliedOne (work next : Working layer.campaignData) (index : ℕ)
    (resolved : Resolved layer.campaignData) : Prop where
  locks : ∀ path ∈ resolved.mutation.touched, path ∉ lockPaths
  pointers : ∀ path pointer, resolved.manifestPointer = some (path, pointer) →
    ∀ tokens first, pointerTokens pointer = .ok tokens → tokens.head? = some first →
      first ∉ manifestProtected
  mutated : ∃ mutated, mutate work index resolved.mutation = .ok mutated ∧
    next.documents = mutated.documents
  accepted : Accepted next.documents next.index
  rules : ∀ pair ∈ identityPairs resolved.rule resolved.mutation.touched,
    keepsRule resolved.rule (identities work.index pair.1) (identities next.index pair.2) = true

theorem appliedOne_of_applyOne (happly : applyOne work index command = .ok next) :
    ∃ resolved, resolve work index command = .ok resolved ∧
      AppliedOne work next index resolved := by
  obtain ⟨resolved, mutated, written, hresolved, hprotected, hmutated, hwritten, hindex, hidentity,
    hdocuments, -⟩ := applyOne_eq_ok happly
  obtain ⟨hlocks, hpointers⟩ := checkProtection_eq_ok hprotected
  rw [← hdocuments] at hindex
  exact ⟨resolved, hresolved, hlocks, hpointers,
    ⟨mutated, hmutated, hdocuments.trans (writeAll_eq_ok hwritten).1⟩,
    accepted_of_mapError hindex, keepsRule_of_checkIdentity hidentity⟩

variable {resolved : Resolved layer.campaignData}

theorem AppliedOne.frame (happlied : AppliedOne work next index resolved) (path : SourcePath)
    (hpath : path ∉ resolved.mutation.touched) :
    next.documents.get? path = work.documents.get? path := by
  obtain ⟨mutated, hmutated, hdocuments⟩ := happlied.mutated
  rw [hdocuments]
  exact (mutate_eq_ok hmutated).2.2 path hpath

theorem resolve_manifest (haccepted : Accepted work.documents work.index)
    (hresolved : resolve work index command = .ok resolved)
    (htouched : manifestPath ∈ resolved.mutation.touched) :
    (∃ edit relative, resolved.mutation = .edit manifestPath edit relative ∧
      resolved.manifestPointer = some (manifestPath, edit.pointer)) ∨
    resolved.mutation = .remove manifestPath ∨
    ∃ target, resolved.mutation = .rename manifestPath target ∧ manifestPath ≠ target := by
  have hpresent : work.documents.get? manifestPath ≠ none := by
    obtain ⟨manifest, hmanifest⟩ := haccepted.manifest
    intro hnone
    cases hmanifest.symm.trans hnone
  have hpointer : ∀ {target : EditTarget} {pointer : String} {make : String → PointerEdit}
      {rule : IdentityRule}, (∀ pointer, (make pointer).pointer = pointer) →
      pointerCommand work index target pointer make rule = .ok resolved →
      ∃ edit relative, resolved.mutation = .edit manifestPath edit relative ∧
        resolved.manifestPointer = some (manifestPath, edit.pointer) := by
    intro target pointer make rule hmake hcommand
    obtain ⟨path, absolute, relative, rfl⟩ := pointerCommand_eq_ok hcommand
    obtain rfl : manifestPath = path := mem_singleton.mp htouched
    refine ⟨make absolute, relative, rfl, ?_⟩
    rw [if_pos rfl, hmake]
  cases command with
  | createDocument path document =>
    obtain ⟨_, hunused, hresolved⟩ := except_bind_eq_ok hresolved
    cases hresolved
    rw [← mem_singleton.mp htouched] at hunused
    exact absurd (unused_eq_ok hunused) hpresent
  | deleteDocument path =>
    obtain ⟨_, -, hresolved⟩ := except_bind_eq_ok hresolved
    cases hresolved
    rw [← mem_singleton.mp htouched]
    exact Or.inr (Or.inl rfl)
  | renameDocument source target =>
    obtain ⟨_, -, hresolved⟩ := except_bind_eq_ok hresolved
    obtain ⟨_, hunused, hresolved⟩ := except_bind_eq_ok hresolved
    cases hresolved
    have htarget : manifestPath ≠ target := by
      intro heq
      rw [← heq] at hunused
      exact hpresent (unused_eq_ok hunused)
    have hsource : manifestPath = source := by
      apply (mem_cons.mp htouched).resolve_right
      intro hmem
      exact htarget (mem_singleton.mp hmem)
    exact Or.inr (Or.inr ⟨target, by rw [hsource], htarget⟩)
  | setValue target pointer value =>
    rw [resolve] at hresolved
    exact Or.inl (hpointer (fun _ ↦ rfl) hresolved)
  | insertValue target pointer value =>
    rw [resolve] at hresolved
    exact Or.inl (hpointer (fun _ ↦ rfl) hresolved)
  | removeValue target pointer =>
    rw [resolve] at hresolved
    exact Or.inl (hpointer (fun _ ↦ rfl) hresolved)
  | deleteObject id =>
    obtain ⟨found, hfound, hresolved⟩ := except_bind_eq_ok hresolved
    cases hresolved
    have hpath : found.path = manifestPath := by
      split_ifs at htouched
      · exact (mem_singleton.mp htouched).symm
      · exact (mem_singleton.mp htouched).symm
    have hroot := (haccepted.manifest_entry (entry_eq_ok hfound) hpath).2
    right
    left
    rw [if_pos hroot, hpath]
  | placeInstance area placement =>
    exact absurd htouched (resolve_placeInstance hresolved).2
  | movePlacement placement transform =>
    obtain ⟨found, hfound, hresolved⟩ := except_bind_eq_ok hresolved
    cases hresolved
    obtain ⟨hentry, hkind⟩ := entryOfKind_eq_ok hfound
    have hcampaign := (haccepted.manifest_entry hentry (mem_singleton.mp htouched).symm).1
    rw [hkind] at hcampaign
    cases hcampaign

/-- The manifest keeps its protected members. -/
theorem pinned_applyOne (haccepted : Accepted work.documents work.index)
    (happly : applyOne work index command = .ok next) {manifest : Campaign layer.types}
    (hmanifest : work.documents.get? manifestPath = some (.campaign manifest)) :
    ∃ left, next.documents.get? manifestPath = some (.campaign left) ∧
      left.pinned = manifest.pinned := by
  obtain ⟨resolved, hresolved, happlied⟩ := appliedOne_of_applyOne happly
  by_cases htouched : manifestPath ∈ resolved.mutation.touched
  · obtain ⟨left, hleft⟩ := happlied.accepted.manifest
    obtain ⟨mutated, hmutated, hdocuments⟩ := happlied.mutated
    obtain ⟨edit, relative, hmutation, hpointer⟩ | hmutation | ⟨target, hmutation, htarget⟩ :=
      resolve_manifest haccepted hresolved htouched
    · refine ⟨left, hleft, ?_⟩
      rw [hmutation] at hmutated
      cases relative with
      | some error => cases hmutated
      | none =>
        obtain ⟨document, edited, hdocument, hedited, rfl⟩ := editInPlace_eq_ok hmutated
        have hsource := hmanifest.symm.trans hdocument
        rw [Option.some.injEq] at hsource
        rw [hdocuments] at hleft
        have htarget := (BTreeMap.get?_insert_self _ _ _).symm.trans hleft
        rw [Option.some.injEq] at htarget
        rw [← hsource, htarget] at hedited
        exact pinned_editDocument hedited (happlied.pointers _ _ hpointer)
    · rw [hmutation] at hmutated
      cases hmutated
      rw [hdocuments, BTreeMap.get?_erase, if_pos rfl] at hleft
      cases hleft
    · rw [hmutation] at hmutated
      simp only [mutate, hmanifest] at hmutated
      cases hmutated
      rw [hdocuments, BTreeMap.get?_insert_of_ne _ htarget, BTreeMap.get?_erase, if_pos rfl] at hleft
      cases hleft
  · exact ⟨manifest, (happlied.frame _ htouched).trans hmanifest, rfl⟩

theorem protects_applyOne (haccepted : Accepted work.documents work.index)
    (happly : applyOne work index command = .ok next) : Protects work.documents next.documents := by
  obtain ⟨resolved, -, happlied⟩ := appliedOne_of_applyOne happly
  constructor
  · intro path document hlock
    by_cases htouched : path ∈ resolved.mutation.touched
    · have hunlocked := happlied.locks path htouched
      constructor
      · exact fun hafter ↦ absurd (happlied.accepted.mem_lockPaths hafter hlock) hunlocked
      · exact fun hbefore ↦ absurd (haccepted.mem_lockPaths hbefore hlock) hunlocked
    · rw [happlied.frame path htouched]
  · intro path manifest hmanifest
    obtain rfl := haccepted.campaign_at hmanifest
    exact pinned_applyOne haccepted happly hmanifest

/-- Under a rule that keeps the old identities, no object is lost. -/
theorem AppliedOne.grows (happlied : AppliedOne work next index resolved)
    (haccepted : Accepted work.documents work.index)
    (hrule : resolved.rule = .grow ∨ resolved.rule = .equal) :
    objects work.index ⊆ objects next.index := by
  refine objects_subset haccepted happlied.accepted happlied.frame fun path hpath pair hpair ↦ ?_
  apply mem_objects_iff.mpr
  refine ⟨path, ?_⟩
  have hkept := happlied.rules (path, path)
  obtain hgrow | hequal := hrule
  · rw [hgrow] at hkept
    have hall := all_eq_true.mp (hkept (mem_map.mpr ⟨path, hpath, rfl⟩))
    exact of_decide_eq_true (hall pair hpair)
  · rw [hequal] at hkept
    have hboth := Bool.and_eq_true_iff.mp (hkept (mem_map.mpr ⟨path, hpath, rfl⟩))
    exact of_decide_eq_true (all_eq_true.mp hboth.1 pair hpair)

/-- Under a rule that keeps to the old identities, no object is new. -/
theorem AppliedOne.shrinks (happlied : AppliedOne work next index resolved)
    (haccepted : Accepted work.documents work.index)
    (hrule : resolved.rule = .shrink ∨ resolved.rule = .equal) :
    objects next.index ⊆ objects work.index := by
  refine objects_subset happlied.accepted haccepted
    (fun path hpath ↦ (happlied.frame path hpath).symm) fun path hpath pair hpair ↦ ?_
  apply mem_objects_iff.mpr
  refine ⟨path, ?_⟩
  have hkept := happlied.rules (path, path)
  obtain hshrink | hequal := hrule
  · rw [hshrink] at hkept
    have hall := all_eq_true.mp (hkept (mem_map.mpr ⟨path, hpath, rfl⟩))
    exact of_decide_eq_true (hall pair hpair)
  · rw [hequal] at hkept
    have hboth := Bool.and_eq_true_iff.mp (hkept (mem_map.mpr ⟨path, hpath, rfl⟩))
    exact of_decide_eq_true (all_eq_true.mp hboth.2 pair hpair)

theorem AppliedOne.renames {source target : SourcePath} (happlied : AppliedOne work next index
      ⟨.rename source target, .rename source target, none⟩)
    (haccepted : Accepted work.documents work.index)
    (hsource : ∃ document, work.documents.get? source = some document)
    (htarget : work.documents.get? target = none) : objects next.index = objects work.index := by
  have hmoved := Bool.and_eq_true_iff.mp
    (happlied.rules (source, target) (mem_singleton.mpr rfl))
  obtain ⟨document, hdocument⟩ := hsource
  have hne : source ≠ target := by
    intro heq
    rw [heq, htarget] at hdocument
    cases hdocument
  have hgone : next.documents.get? source = none := by
    obtain ⟨mutated, hmutated, hdocuments⟩ := happlied.mutated
    simp only [mutate, hdocument] at hmutated
    cases hmutated
    rw [hdocuments, BTreeMap.get?_insert_of_ne _ hne, BTreeMap.get?_erase, if_pos rfl]
  apply Set.Subset.antisymm
  · refine objects_subset happlied.accepted haccepted
      (fun path hpath ↦ (happlied.frame path hpath).symm) fun path hpath pair hpair ↦ ?_
    rw [Mutation.touched, mem_cons, mem_singleton] at hpath
    obtain rfl | rfl := hpath
    · exact absurd hpair (happlied.accepted.identities_of_unused hgone pair)
    · exact mem_objects_iff.mpr
        ⟨source, of_decide_eq_true (all_eq_true.mp hmoved.2 pair hpair)⟩
  · refine objects_subset haccepted happlied.accepted happlied.frame fun path hpath pair hpair ↦ ?_
    rw [Mutation.touched, mem_cons, mem_singleton] at hpath
    obtain rfl | rfl := hpath
    · exact mem_objects_iff.mpr
        ⟨target, of_decide_eq_true (all_eq_true.mp hmoved.1 pair hpair)⟩
    · exact absurd hpair (haccepted.identities_of_unused htarget pair)

theorem keeps_applyOne (haccepted : Accepted work.documents work.index)
    (happly : applyOne work index command = .ok next) :
    command.Keeps (objects work.index) (objects next.index) := by
  obtain ⟨resolved, hresolved, happlied⟩ := appliedOne_of_applyOne happly
  have hequal : resolved.rule = .equal → objects next.index = objects work.index := by
    intro hrule
    exact Set.Subset.antisymm (happlied.shrinks haccepted (Or.inr hrule))
      (happlied.grows haccepted (Or.inr hrule))
  cases command with
  | createDocument path document =>
    obtain ⟨_, hunused, hresolved⟩ := except_bind_eq_ok hresolved
    cases hresolved
    refine objects_subset haccepted happlied.accepted happlied.frame fun other hother pair hpair ↦ ?_
    rw [mem_singleton.mp hother] at hpair
    exact absurd hpair (haccepted.identities_of_unused (unused_eq_ok hunused) pair)
  | deleteDocument path =>
    obtain ⟨_, -, hresolved⟩ := except_bind_eq_ok hresolved
    cases hresolved
    exact happlied.shrinks haccepted (Or.inl rfl)
  | renameDocument source target =>
    obtain ⟨_, hexisting, hresolved⟩ := except_bind_eq_ok hresolved
    obtain ⟨_, hunused, hresolved⟩ := except_bind_eq_ok hresolved
    cases hresolved
    exact happlied.renames haccepted (existing_eq_ok hexisting) (unused_eq_ok hunused)
  | setValue target pointer value =>
    rw [resolve] at hresolved
    obtain ⟨path, absolute, relative, rfl⟩ := pointerCommand_eq_ok hresolved
    exact hequal rfl
  | insertValue target pointer value =>
    rw [resolve] at hresolved
    obtain ⟨path, absolute, relative, rfl⟩ := pointerCommand_eq_ok hresolved
    exact happlied.grows haccepted (Or.inl rfl)
  | removeValue target pointer =>
    rw [resolve] at hresolved
    obtain ⟨path, absolute, relative, rfl⟩ := pointerCommand_eq_ok hresolved
    exact happlied.shrinks haccepted (Or.inl rfl)
  | deleteObject id =>
    obtain ⟨found, -, hresolved⟩ := except_bind_eq_ok hresolved
    cases hresolved
    exact happlied.shrinks haccepted (Or.inl rfl)
  | placeInstance area placement =>
    exact happlied.grows haccepted (Or.inl (resolve_placeInstance hresolved).1)
  | movePlacement placement transform =>
    obtain ⟨found, -, hresolved⟩ := except_bind_eq_ok hresolved
    cases hresolved
    exact hequal rfl

theorem keeps_applyAll {commands : List (EditCommand layer.campaignData)}
    (haccepted : Accepted work.documents work.index)
    (happly : CampaignDocument.applyAll work index commands = .ok next) :
    Accepted next.documents next.index ∧ Protects work.documents next.documents ∧
      Follows (objects work.index) commands (objects next.index) := by
  induction commands generalizing work index with
  | nil =>
    cases happly
    exact ⟨haccepted, .refl _, .nil _⟩
  | cons first rest ih =>
    obtain ⟨middle, hfirst, hrest⟩ := except_bind_eq_ok happly
    obtain ⟨resolved, -, happlied⟩ := appliedOne_of_applyOne hfirst
    obtain ⟨hnext, hprotects, hfollows⟩ := ih happlied.accepted hrest
    exact ⟨hnext, (protects_applyOne haccepted hfirst).trans hprotects,
      .cons (keeps_applyOne haccepted hfirst) hfollows⟩

end Command

/-! ### Runs -/

namespace CampaignDocument

/-- One call of the editor on a document. -/
def operate {data : CampaignData} (document : CampaignDocument data) :
    Operation data → Option (CampaignDocument data)
  | .apply command => (apply command document).state?
  | .applyBatch commands => (applyBatch commands document).state?
  | .undo => ((undo : Method data _) document).state?
  | .redo => ((redo : Method data _) document).state?
  | .savePlan => some document
  | .markSaved plan => (markSaved plan document).state?

inductive AcceptedBatches {data : CampaignData} :
    CampaignDocument data → List (List (EditCommand data)) → CampaignDocument data → Prop
  | nil (document : CampaignDocument data) : AcceptedBatches document [] document
  | cons {document next final : CampaignDocument data} {commands : List (EditCommand data)}
      {rest : List (List (EditCommand data))} {receipt : CommandReceipt data}
      (haccepted : applyBatch commands document = .ok receipt next)
      (hrest : AcceptedBatches next rest final) : AcceptedBatches document (commands :: rest) final

variable {layer : DataLayer}

def Indexed (document : CampaignDocument layer.campaignData) : Prop :=
  Accepted document.campaign.documents document.campaign.index

variable {document : CampaignDocument layer.campaignData}

theorem indexed_of_opened {documents : BTreeMap SourcePath layer.Doc}
    (hopened : @opened layer.campaignData documents = .ok document) : document.Indexed := by
  unfold opened at hopened
  split at hopened
  · cases hopened
  · rename_i index hindex
    obtain ⟨canonical, -, hdocument⟩ := except_bind_eq_ok hopened
    cases hdocument
    exact accepted_of_mapError hindex

theorem indexed_of_restore {entry : Entry} {side : PathBytes → Option (List UInt8)}
    {restored : LoadedCampaign layer.campaignData × Files}
    (hrestored : document.restore entry side = .ok restored) :
    Accepted restored.1.documents restored.1.index := by
  obtain ⟨state, -, hrestored⟩ := except_bind_eq_ok hrestored
  split at hrestored
  · cases hrestored
  · rename_i index hindex
    cases hrestored
    exact accepted_of_mapError hindex

theorem Indexed.applyBatch {next : CampaignDocument layer.campaignData}
    (hindexed : document.Indexed) {commands : List (EditCommand layer.campaignData)}
    {receipt : CommandReceipt layer.campaignData}
    (hok : CampaignDocument.applyBatch commands document = .ok receipt next) :
    next.Indexed ∧ Protects document.campaign.documents next.campaign.documents ∧
      Follows (objects document.campaign.index) commands (objects next.campaign.index) := by
  obtain ⟨error, herror⟩ | ⟨work, hwork, ⟨-, hsame⟩ | ⟨-, -, found, -, hchanged⟩⟩ :=
    document.applyBatch_cases commands
  · rw [herror] at hok
    cases hok
  · rw [hsame] at hok
    cases hok
    exact ⟨hindexed, .refl _, .refl _ commands⟩
  · rw [hchanged] at hok
    cases hok
    exact keeps_applyAll (show Accepted document.working.documents document.working.index from
      hindexed) hwork

/-- Every call of the editor leaves an accepted index. -/
theorem Indexed.operate {next : CampaignDocument layer.campaignData} (hindexed : document.Indexed)
    {operation : Operation layer.campaignData} (hnext : document.operate operation = some next) :
    next.Indexed := by
  have hbatch : ∀ commands,
      (CampaignDocument.applyBatch commands document).state? = some next → next.Indexed := by
    intro commands hstate
    obtain ⟨error, herror⟩ | ⟨work, -, ⟨-, hsame⟩ | ⟨-, -, receipt, -, hchanged⟩⟩ :=
      document.applyBatch_cases commands
    · rw [herror] at hstate
      cases hstate
      exact hindexed
    · rw [hsame] at hstate
      cases hstate
      exact hindexed
    · rw [hchanged] at hstate
      cases hstate
      exact (hindexed.applyBatch hchanged).1
  cases operation with
  | apply command => exact hbatch [command] hnext
  | applyBatch commands => exact hbatch commands hnext
  | undo =>
    obtain ⟨error, herror, -⟩ | ⟨entry, restored, receipt, -, hrestored, hchanged⟩ :=
      document.undo_cases
    · rw [CampaignDocument.operate, herror] at hnext
      cases hnext
      exact hindexed
    · rw [CampaignDocument.operate, hchanged] at hnext
      cases hnext
      exact indexed_of_restore hrestored
  | redo =>
    obtain ⟨error, herror, -⟩ | ⟨entry, restored, receipt, -, hrestored, hchanged⟩ :=
      document.redo_cases
    · rw [CampaignDocument.operate, herror] at hnext
      cases hnext
      exact hindexed
    · rw [CampaignDocument.operate, hchanged] at hnext
      cases hnext
      exact indexed_of_restore hrestored
  | savePlan =>
    cases hnext
    exact hindexed
  | markSaved plan =>
    obtain ⟨-, hstale⟩ | ⟨-, hmarked⟩ := document.markSaved_cases plan
    · rw [CampaignDocument.operate, hstale] at hnext
      cases hnext
      exact hindexed
    · rw [CampaignDocument.operate, hmarked] at hnext
      cases hnext
      exact hindexed

theorem AcceptedBatches.protects {final : CampaignDocument layer.campaignData}
    {batches : List (List (EditCommand layer.campaignData))}
    (hbatches : AcceptedBatches document batches final) (hindexed : document.Indexed) :
    Protects document.campaign.documents final.campaign.documents ∧
      Follows (objects document.campaign.index) batches.flatten (objects final.campaign.index) := by
  induction hbatches with
  | nil document => exact ⟨.refl _, .nil _⟩
  | cons haccepted _ ih =>
    obtain ⟨hnext, hprotects, hfollows⟩ := hindexed.applyBatch haccepted
    obtain ⟨hlast, hrest⟩ := ih hnext
    exact ⟨hprotects.trans hlast, hfollows.append hrest⟩

end CampaignDocument

/-- Protection and identity. On every document the editor's calls reach, accepted batches keep the
lock documents and the manifest's protected members, and change the campaign's identified objects
command by command as each command's rule says. The same holds of each command a batch accepts, on
the working copy the commands before it leave. Assumes: an opened document. -/
theorem edits_protect {layer : DataLayer} {documents : BTreeMap SourcePath layer.Doc}
    {start document : CampaignDocument layer.campaignData}
    {operations : List (Operation layer.campaignData)}
    (hopened : @CampaignDocument.opened layer.campaignData documents = .ok start)
    (hrun : run CampaignDocument.operate start operations = some document) :
    (∀ batches final, CampaignDocument.AcceptedBatches document batches final →
      Protects document.campaign.documents final.campaign.documents ∧
        Follows (objects document.campaign.index) batches.flatten (objects final.campaign.index)) ∧
    (∀ commands work, CampaignDocument.applyAll document.working 0 commands = .ok work →
      ∀ index command next, applyOne work index command = .ok next →
        Protects work.documents next.documents ∧
          command.Keeps (objects work.index) (objects next.index)) := by
  have hindexed : document.Indexed :=
    run_preserves (fun _ _ _ hindexed hnext ↦ hindexed.operate hnext)
      (CampaignDocument.indexed_of_opened hopened) hrun
  constructor
  · intro batches final hbatches
    exact hbatches.protects hindexed
  · intro commands work hwork index command next hnext
    have hstart : Accepted document.working.documents document.working.index := hindexed
    have haccepted := (keeps_applyAll hstart hwork).1
    exact ⟨protects_applyOne haccepted hnext, keeps_applyOne haccepted hnext⟩

/-- A data layer for manifests, whose texts are read and printed plainly. -/
def plainLayer : DataLayer where
  types := ⟨String, String, String, String, String, textCodec, textCodec, textCodec, textsCodec,
    textCodec⟩
  Rest := Unit
  Placement := Unit
  Transform := Unit
  Diagnostic := Unit
  toValue := fun _ _ ↦ .ok .null
  fromValue := fun _ ↦ .error (.malformed "document")
  validateLocal := fun _ _ ↦ .ok ()
  checkLocks := fun _ ↦ .ok ()
  parse := fun bytes ↦ .ok (.string (String.ofList (bytes.map fun byte ↦ Char.ofNat byte.toNat)))
  print := fun value ↦
    let name := (value.asObject.bind fun members ↦ Value.getMember members "name").bind Value.asStr
    .ok ((name.getD "").toList.map fun char ↦ UInt8.ofNat char.toNat)
  readDocument := fun _ ↦ none
  placementId := fun _ ↦ 0
  placementsRest := fun _ _ ↦ ()
  placementJson := fun _ ↦ .ok []
  transformJson := fun _ ↦ .ok []
  display := fun _ ↦ ""
  diagnostic := fun _ ↦ ()
  invalidPath := fun _ ↦ ()
  validate := fun _ _ ↦ []

def plainDocuments : BTreeMap SourcePath plainLayer.Doc :=
  .ofList [("campaign.json",
      .campaign ⟨1, "slug", "name", none, "package", "0.1.0", ">=0.1.0", ["base"], "entry"⟩),
    ("campaign.lock", .other .campaignLock ()), ("assets/assets.lock", .other .assetsLock ())]

def editName (letter : UInt8) : EditCommand plainLayer.campaignData :=
  .setValue (.object 1) "/name" [letter]

/-- Whether the manifest's name is changed once and then once more. -/
def changesTwice : Bool :=
  match @CampaignDocument.opened plainLayer.campaignData plainDocuments with
  | .error _ => false
  | .ok start =>
    match run CampaignDocument.operate start [.apply (editName 78)] with
    | none => false
    | some document =>
      match CampaignDocument.applyBatch [editName 79] document with
      | .ok receipt _ => decide (receipt.changes ≠ [])
      | _ => false

/-- A second change of the manifest's name keeps what is protected and the campaign's objects. -/
theorem edits_protect_named : ∃ start document final receipt,
    @CampaignDocument.opened plainLayer.campaignData plainDocuments = .ok start ∧
    run CampaignDocument.operate start [.apply (editName 78)] = some document ∧
    CampaignDocument.applyBatch [editName 79] document = .ok receipt final ∧
    receipt.changes ≠ [] ∧ Protects document.campaign.documents final.campaign.documents ∧
    objects final.campaign.index = objects document.campaign.index := by
  have hchanges : changesTwice = true := by decide +kernel
  unfold changesTwice at hchanges
  split at hchanges
  · cases hchanges
  · rename_i start hopened
    split at hchanges
    · cases hchanges
    · rename_i document hrun
      split at hchanges
      · rename_i receipt final hok
        obtain ⟨hprotects, hfollows⟩ :=
          (edits_protect hopened hrun).1 [[editName 79]] final (.cons hok (.nil final))
        refine ⟨start, document, final, receipt, hopened, hrun, hok,
          of_decide_eq_true hchanges, hprotects, ?_⟩
        cases hfollows with
        | cons hkeeps hrest =>
          cases hrest
          exact hkeeps
      · cases hchanges

end Crpg.Edit
