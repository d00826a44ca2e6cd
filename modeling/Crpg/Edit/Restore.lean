import Crpg.Edit.Document

/-!
# Restoring a campaign from its history

The working copy of a campaign is consistent when its canonical files are what the writer gives for
each document and its index is the one derived from the documents. Accepted commands keep that
(`Consistent.applyOne`): a command changes documents only at the paths it touches, and writes those
again.

A history entry holds the canonical bytes of two working copies at the paths where they differ.
Restoring one of its sides from the other gives the documents, the index and the files of that side
(`restore_entryOf`), because the reader gives back what was written.
-/

set_option autoImplicit false

namespace Crpg.Edit

open Crpg.Core Crpg.Lib Crpg.Net
open Result (except_bind_eq_ok)

variable {data : CampaignData}

/-! ### Consistent working copies -/

def WrittenAt (documents : BTreeMap SourcePath data.Document) (canonical : Files)
    (path : SourcePath) : Prop :=
  match documents.get? path with
  | some document =>
    ∃ bytes, data.writeDocument document = .ok bytes ∧ canonical.get? path = some bytes
  | none => canonical.get? path = none

structure Working.Consistent (work : Working data) : Prop where
  written : ∀ path, WrittenAt work.documents work.canonical path
  index : data.campaignIndex work.documents = .ok work.index

variable {path : SourcePath} {index : ℕ} {work next : Working data} {before after : Files}

theorem WrittenAt.congr {documents others : BTreeMap SourcePath data.Document}
    {canonical files : Files} (hwritten : WrittenAt documents canonical path)
    (hdocuments : others.get? path = documents.get? path)
    (hfiles : files.get? path = canonical.get? path) : WrittenAt others files path := by
  unfold WrittenAt at hwritten ⊢
  rw [hdocuments, hfiles]
  exact hwritten

theorem orRejected_eq_ok {α : Type} {result : Except data.Diagnostic α} {value : α}
    (hresult : (orRejected index result : Answer data α) = .ok value) : result = .ok value := by
  cases result with
  | error diagnostic => cases hresult
  | ok found =>
    cases hresult
    rfl

theorem editInPlace_eq_ok {edit : PointerEdit}
    (hedit : editInPlace work index path edit = .ok next) :
    ∃ document edited, work.documents.get? path = some document ∧
      data.editDocument document edit = .ok edited ∧
      next = { work with documents := work.documents.insert path edited } := by
  unfold editInPlace at hedit
  split at hedit
  · cases hedit
  · rename_i document hdocument
    split at hedit
    · rename_i edited hedited
      cases hedit
      exact ⟨document, edited, hdocument, hedited, rfl⟩
    · cases hedit

theorem mutate_eq_ok {mutation : Mutation data} (hmutate : mutate work index mutation = .ok next) :
    next.canonical = work.canonical ∧ next.index = work.index ∧
      ∀ path, path ∉ mutation.touched → next.documents.get? path = work.documents.get? path := by
  have hedited : ∀ {path : SourcePath} {edit : PointerEdit},
      editInPlace work index path edit = .ok next →
      next.canonical = work.canonical ∧ next.index = work.index ∧
        ∀ other, other ∉ [path] → next.documents.get? other = work.documents.get? other := by
    intro path edit hedit
    obtain ⟨document, edited, -, -, rfl⟩ := editInPlace_eq_ok hedit
    refine ⟨rfl, rfl, fun other hother ↦ ?_⟩
    rw [List.mem_singleton] at hother
    exact work.documents.get?_insert_of_ne hother edited
  cases mutation with
  | insert path document =>
    cases hmutate
    refine ⟨rfl, rfl, fun other hother ↦ ?_⟩
    rw [Mutation.touched, List.mem_singleton] at hother
    exact work.documents.get?_insert_of_ne hother document
  | remove path =>
    cases hmutate
    refine ⟨rfl, rfl, fun other hother ↦ ?_⟩
    rw [Mutation.touched, List.mem_singleton] at hother
    show (work.documents.erase path).get? other = _
    rw [BTreeMap.get?_erase, if_neg hother]
  | rename source target =>
    simp only [mutate] at hmutate
    cases hdocument : work.documents.get? source with
    | none =>
      rw [hdocument] at hmutate
      cases hmutate
      exact ⟨rfl, rfl, fun _ _ ↦ rfl⟩
    | some document =>
      rw [hdocument] at hmutate
      cases hmutate
      refine ⟨rfl, rfl, fun other hother ↦ ?_⟩
      rw [Mutation.touched, List.mem_cons, List.mem_singleton, not_or] at hother
      show ((work.documents.erase source).insert target document).get? other = _
      rw [BTreeMap.get?_insert_of_ne _ hother.2, BTreeMap.get?_erase, if_neg hother.1]
  | edit path edit relative =>
    cases relative with
    | some error => cases hmutate
    | none => exact hedited hmutate
  | appendPlacement path placement =>
    obtain ⟨value, -, hedit⟩ := except_bind_eq_ok hmutate
    exact hedited hedit
  | setTransform path pointer transform =>
    obtain ⟨value, -, hedit⟩ := except_bind_eq_ok hmutate
    exact hedited hedit

theorem writeTouched_eq_ok (hwrite : writeTouched index work path = .ok next) :
    next.documents = work.documents ∧ next.index = work.index ∧
      WrittenAt next.documents next.canonical path ∧
      ∀ other, other ≠ path → next.canonical.get? other = work.canonical.get? other := by
  unfold writeTouched at hwrite
  cases hdocument : work.documents.get? path with
  | none =>
    rw [hdocument] at hwrite
    cases hwrite
    refine ⟨rfl, rfl, ?_, fun other hother ↦ ?_⟩
    · unfold WrittenAt
      rw [hdocument]
      show (work.canonical.erase path).get? path = none
      rw [BTreeMap.get?_erase, if_pos rfl]
    · show (work.canonical.erase path).get? other = _
      rw [BTreeMap.get?_erase, if_neg hother]
  | some document =>
    rw [hdocument] at hwrite
    obtain ⟨bytes, hbytes, hwrite⟩ := except_bind_eq_ok hwrite
    obtain ⟨_, -, hwrite⟩ := except_bind_eq_ok hwrite
    cases hwrite
    refine ⟨rfl, rfl, ?_, fun other hother ↦ ?_⟩
    · unfold WrittenAt
      rw [hdocument]
      exact ⟨bytes, orRejected_eq_ok hbytes, BTreeMap.get?_insert_self ..⟩
    · exact work.canonical.get?_insert_of_ne hother bytes

theorem writeAll_eq_ok {touched : List SourcePath}
    (hwrite : touched.foldlM (writeTouched index) work = .ok next) :
    next.documents = work.documents ∧ next.index = work.index ∧
      (∀ path ∈ touched, WrittenAt next.documents next.canonical path) ∧
      ∀ path, path ∉ touched → next.canonical.get? path = work.canonical.get? path := by
  induction touched generalizing work with
  | nil =>
    cases hwrite
    exact ⟨rfl, rfl, nofun, fun _ _ ↦ rfl⟩
  | cons first rest ih =>
    rw [List.foldlM_cons] at hwrite
    obtain ⟨middle, hfirst, hrest⟩ := except_bind_eq_ok hwrite
    obtain ⟨hdocuments, hindex, hwritten, hothers⟩ := writeTouched_eq_ok hfirst
    obtain ⟨hnextDocuments, hnextIndex, hnextWritten, hnextOthers⟩ := ih hrest
    refine ⟨hnextDocuments.trans hdocuments, hnextIndex.trans hindex, fun path hpath ↦ ?_,
      fun path hpath ↦ ?_⟩
    · by_cases hmem : path ∈ rest
      · exact hnextWritten path hmem
      · obtain rfl := (List.mem_cons.mp hpath).resolve_right hmem
        exact hwritten.congr (by rw [hnextDocuments]) (hnextOthers _ hmem)
    · rw [List.mem_cons, not_or] at hpath
      rw [hnextOthers path hpath.2, hothers path hpath.1]

theorem applyOne_eq_ok {command : EditCommand data}
    (happly : applyOne work index command = .ok next) : ∃ resolved mutated written,
      resolve work index command = .ok resolved ∧ checkProtection index resolved = .ok () ∧
      mutate work index resolved.mutation = .ok mutated ∧
      resolved.mutation.touched.foldlM (writeTouched index) mutated = .ok written ∧
      data.campaignIndex written.documents = .ok next.index ∧
      checkIdentity work.index next.index index resolved.rule resolved.mutation.touched =
        (.ok () : Answer data Unit) ∧
      next.documents = written.documents ∧ next.canonical = written.canonical := by
  obtain ⟨_, -, happly⟩ := except_bind_eq_ok happly
  obtain ⟨resolved, hresolved, happly⟩ := except_bind_eq_ok happly
  obtain ⟨_, hprotected, happly⟩ := except_bind_eq_ok happly
  obtain ⟨mutated, hmutated, happly⟩ := except_bind_eq_ok happly
  obtain ⟨written, hwritten, happly⟩ := except_bind_eq_ok happly
  obtain ⟨newIndex, hindex, happly⟩ := except_bind_eq_ok happly
  obtain ⟨_, hidentity, happly⟩ := except_bind_eq_ok happly
  cases happly
  exact ⟨resolved, mutated, written, hresolved, hprotected, hmutated, hwritten,
    orRejected_eq_ok hindex, hidentity, rfl, rfl⟩

theorem Working.Consistent.applyOne (hwork : work.Consistent) {command : EditCommand data}
    (happly : applyOne work index command = .ok next) : next.Consistent := by
  obtain ⟨resolved, mutated, written, -, -, hmutated, hwritten, hindex, -, hdocuments, hcanonical⟩ :=
    applyOne_eq_ok happly
  obtain ⟨hmutatedCanonical, -, hmutatedOthers⟩ := mutate_eq_ok hmutated
  obtain ⟨hwrittenDocuments, -, htouched, hwrittenOthers⟩ := writeAll_eq_ok hwritten
  refine ⟨fun path ↦ ?_, ?_⟩
  · rw [hdocuments, hcanonical]
    by_cases hpath : path ∈ resolved.mutation.touched
    · exact htouched path hpath
    · apply (hwork.written path).congr
      · rw [hwrittenDocuments, hmutatedOthers path hpath]
      · rw [hwrittenOthers path hpath, hmutatedCanonical]
  · rw [hdocuments]
    exact hindex

theorem Working.Consistent.applyAll (hwork : work.Consistent) {commands : List (EditCommand data)}
    (happly : CampaignDocument.applyAll work index commands = .ok next) : next.Consistent := by
  induction commands generalizing work index with
  | nil =>
    cases happly
    exact hwork
  | cons command rest ih =>
    obtain ⟨middle, hfirst, hrest⟩ := except_bind_eq_ok happly
    exact ih (hwork.applyOne hfirst) hrest

/-! ### Differences -/

theorem changeOf_eq_some {change : PathChange}
    (hchange : changeOf before after path = some change) :
    change.path = path ∧ before.get? path ≠ after.get? path := by
  unfold changeOf at hchange
  split at hchange
  · rename_i bytes hbefore hafter
    cases hchange
    rw [hbefore, hafter]
    exact ⟨rfl, nofun⟩
  · rename_i bytes hbefore hafter
    cases hchange
    rw [hbefore, hafter]
    exact ⟨rfl, nofun⟩
  · rename_i old new hbefore hafter
    split_ifs at hchange with hne
    cases hchange
    rw [hbefore, hafter]
    exact ⟨rfl, fun heq ↦ hne (Option.some.inj heq)⟩
  · cases hchange

theorem changeOf_isSome (hne : before.get? path ≠ after.get? path) :
    ∃ change, changeOf before after path = some change := by
  unfold changeOf
  split
  · exact ⟨_, rfl⟩
  · exact ⟨_, rfl⟩
  · rename_i old new hbefore hafter
    rw [hbefore, hafter] at hne
    rw [if_pos fun heq ↦ hne (by rw [heq])]
    exact ⟨_, rfl⟩
  · rename_i hbefore hafter
    exact absurd (hbefore.trans hafter.symm) hne

/-- The difference of two maps names exactly the paths where they differ. -/
theorem mem_diff_iff (before after : Files) (path : SourcePath) :
    path ∈ (diff before after).map PathChange.path ↔ before.get? path ≠ after.get? path := by
  simp only [diff, List.mem_map, List.mem_filterMap]
  constructor
  · rintro ⟨change, ⟨other, -, hchange⟩, rfl⟩
    obtain ⟨rfl, hne⟩ := changeOf_eq_some hchange
    exact hne
  · intro hne
    obtain ⟨change, hchange⟩ := changeOf_isSome hne
    refine ⟨change, ⟨path, ?_, hchange⟩, (changeOf_eq_some hchange).1⟩
    have hkey : path ∈ before.keys ++ after.keys := by
      rw [List.mem_append, BTreeMap.mem_keys_iff, BTreeMap.mem_keys_iff]
      by_contra hnone
      rw [not_or, ← Option.ne_none_iff_exists', ← Option.ne_none_iff_exists', ne_eq, ne_eq,
        not_not, not_not] at hnone
      exact hne (hnone.1.trans hnone.2.symm)
    rw [BTreeMap.mem_keys_ofList_iff, List.map_map]
    exact List.mem_map.mpr ⟨path, hkey, rfl⟩

/-! ### History entries -/

/-- The entry of a change from one map to another. -/
def linkOf (before after : Files) : Entry :=
  CampaignDocument.entryOf before after (diff before after)

def Entry.size (entry : Entry) : ℕ :=
  (entry.paths.map fun path ↦ sideBytes path.before + sideBytes path.after).sum

theorem foldl_saturatingAdd (paths : List PathBytes) {start : ℕ} (hstart : start ≤ usizeMax) :
    paths.foldl (fun sum path ↦ saturatingAdd usizeMax
      (saturatingAdd usizeMax sum (sideBytes path.before)) (sideBytes path.after)) start =
      min usizeMax
        (start + (paths.map fun path ↦ sideBytes path.before + sideBytes path.after).sum) := by
  induction paths generalizing start with
  | nil =>
    simp only [List.foldl_nil, List.map_nil, List.sum_nil, Nat.add_zero]
    exact (min_eq_right hstart).symm
  | cons path rest ih =>
    rw [List.foldl_cons, ih (saturatingAdd_le ..), List.map_cons, List.sum_cons]
    simp only [saturatingAdd]
    omega

/-- An entry that fits the history counts its sides exactly. -/
theorem bytes_linkOf (hfits : (linkOf before after).bytes ≤ maxHistoryBytes) :
    (linkOf before after).bytes = (linkOf before after).size := by
  have hbytes : (linkOf before after).bytes = min usizeMax (0 + (linkOf before after).size) :=
    foldl_saturatingAdd _ (Nat.zero_le _)
  have hmax : maxHistoryBytes = 33554432 := rfl
  have husize : usizeMax = 18446744073709551615 := rfl
  omega

theorem mem_linkOf_iff (before after : Files) (path : SourcePath) :
    path ∈ (linkOf before after).paths.map PathBytes.path ↔ before.get? path ≠ after.get? path := by
  rw [← mem_diff_iff]
  simp only [linkOf, CampaignDocument.entryOf, Entry.new, List.map_map]
  exact Iff.rfl

theorem sides_of_mem_linkOf {path : PathBytes} (hpath : path ∈ (linkOf before after).paths) :
    path.before = before.get? path.path ∧ path.after = after.get? path.path := by
  simp only [linkOf, CampaignDocument.entryOf, Entry.new] at hpath
  obtain ⟨change, -, rfl⟩ := List.mem_map.mp hpath
  exact ⟨rfl, rfl⟩

/-! ### Restoring -/

def RoundTrips (data : CampaignData) : Prop :=
  ∀ document bytes, data.writeDocument document = .ok bytes →
    data.readDocument bytes = some document

def Agrees (state : BTreeMap SourcePath data.Document × Files) (target : Working data)
    (path : SourcePath) : Prop :=
  state.1.get? path = target.documents.get? path ∧ state.2.get? path = target.canonical.get? path

variable {target : Working data} {side : PathBytes → Option (List UInt8)}
  {document : CampaignDocument data}

section

variable (hround : RoundTrips data)
include hround

theorem restoreOne_eq (htarget : target.Consistent) {path : PathBytes}
    (hside : side path = target.canonical.get? path.path)
    (state : BTreeMap SourcePath data.Document × Files) : ∃ next,
      CampaignDocument.restoreOne side state path = .ok next ∧ Agrees next target path.path ∧
        ∀ other, Agrees state target other → Agrees next target other := by
  have hwritten := htarget.written path.path
  unfold WrittenAt at hwritten
  unfold CampaignDocument.restoreOne
  cases hdocument : target.documents.get? path.path with
  | none =>
    rw [hdocument] at hwritten
    rw [hside, hwritten]
    have hnew : Agrees (state.1.erase path.path, state.2.erase path.path) target path.path := by
      constructor
      · rw [hdocument, BTreeMap.get?_erase, if_pos rfl]
      · rw [hwritten, BTreeMap.get?_erase, if_pos rfl]
    refine ⟨_, rfl, hnew, fun other hother ↦ ?_⟩
    by_cases hsame : other = path.path
    · rw [hsame]
      exact hnew
    · constructor
      · rw [BTreeMap.get?_erase, if_neg hsame]
        exact hother.1
      · rw [BTreeMap.get?_erase, if_neg hsame]
        exact hother.2
  | some document =>
    rw [hdocument] at hwritten
    obtain ⟨bytes, hbytes, hcanonical⟩ := hwritten
    rw [hside, hcanonical]
    simp only [hround document bytes hbytes]
    have hnew : Agrees (state.1.insert path.path document, state.2.insert path.path bytes) target
        path.path := by
      constructor
      · rw [hdocument, BTreeMap.get?_insert_self]
      · rw [hcanonical, BTreeMap.get?_insert_self]
    refine ⟨_, rfl, hnew, fun other hother ↦ ?_⟩
    by_cases hsame : other = path.path
    · rw [hsame]
      exact hnew
    · constructor
      · rw [BTreeMap.get?_insert_of_ne _ hsame]
        exact hother.1
      · rw [BTreeMap.get?_insert_of_ne _ hsame]
        exact hother.2

theorem restoreAll_eq (htarget : target.Consistent) {paths : List PathBytes}
    (hsides : ∀ path ∈ paths, side path = target.canonical.get? path.path)
    (state : BTreeMap SourcePath data.Document × Files) : ∃ final,
      (paths.foldlM (CampaignDocument.restoreOne side) state : Answer data _) = .ok final ∧
        ∀ path, path ∈ paths.map PathBytes.path ∨ Agrees state target path →
          Agrees final target path := by
  induction paths generalizing state with
  | nil =>
    refine ⟨state, rfl, fun path hpath ↦ ?_⟩
    exact hpath.resolve_left (List.not_mem_nil)
  | cons first rest ih =>
    obtain ⟨next, hnext, hfirst, hkept⟩ :=
      restoreOne_eq hround htarget (hsides first (List.mem_cons_self ..)) state
    obtain ⟨final, hfinal, hagrees⟩ :=
      ih (fun path hpath ↦ hsides path (List.mem_cons_of_mem _ hpath)) next
    refine ⟨final, ?_, fun path hpath ↦ hagrees path ?_⟩
    · rw [List.foldlM_cons, hnext]
      exact hfinal
    · rw [List.map_cons, List.mem_cons] at hpath
      obtain (hsame | hrest) | hstate := hpath
      · rw [hsame]
        exact Or.inr hfirst
      · exact Or.inl hrest
      · exact Or.inr (hkept path hstate)

theorem documents_eq_of_canonical {first second : Working data} (hfirst : first.Consistent)
    (hsecond : second.Consistent) (hsame : first.canonical.get? path = second.canonical.get? path) :
    first.documents.get? path = second.documents.get? path := by
  have hwritten := hfirst.written path
  have hother := hsecond.written path
  unfold WrittenAt at hwritten hother
  cases hdocument : first.documents.get? path with
  | none =>
    rw [hdocument] at hwritten
    cases hfound : second.documents.get? path with
    | none => rfl
    | some found =>
      rw [hfound] at hother
      obtain ⟨bytes, -, hbytes⟩ := hother
      rw [← hsame, hwritten] at hbytes
      cases hbytes
  | some document =>
    rw [hdocument] at hwritten
    obtain ⟨bytes, hbytes, hcanonical⟩ := hwritten
    cases hfound : second.documents.get? path with
    | none =>
      rw [hfound] at hother
      rw [hsame, hother] at hcanonical
      cases hcanonical
    | some found =>
      rw [hfound] at hother
      obtain ⟨others, hothers, hfiles⟩ := hother
      rw [← hsame, hcanonical, Option.some.injEq] at hfiles
      subst hfiles
      rw [← hround document bytes hbytes, hround found bytes hothers]

theorem restore_of_target (hdocument : document.working.Consistent) (htarget : target.Consistent)
    {entry : Entry} (hsides : ∀ path ∈ entry.paths, side path = target.canonical.get? path.path)
    (hothers : ∀ path, path ∉ entry.paths.map PathBytes.path →
      document.canonical.get? path = target.canonical.get? path) :
    document.restore entry side = .ok (⟨target.documents, target.index⟩, target.canonical) := by
  obtain ⟨final, hfinal, hagrees⟩ := restoreAll_eq hround htarget hsides
    (document.campaign.documents, document.canonical)
  have hall : ∀ path, Agrees final target path := by
    intro path
    apply hagrees
    by_cases hpath : path ∈ entry.paths.map PathBytes.path
    · exact Or.inl hpath
    · right
      have hsame := hothers path hpath
      exact ⟨documents_eq_of_canonical hround hdocument htarget hsame, hsame⟩
  have hdocuments : final.1 = target.documents := BTreeMap.ext_get? fun path ↦ (hall path).1
  have hcanonical : final.2 = target.canonical := BTreeMap.ext_get? fun path ↦ (hall path).2
  unfold CampaignDocument.restore
  rw [hfinal]
  simp only [bind, Except.bind]
  rw [hdocuments, hcanonical, htarget.index]
  rfl

theorem restore_before (hdocument : document.working.Consistent) {before : Working data}
    (hbefore : before.Consistent) :
    document.restore (linkOf before.canonical document.canonical) PathBytes.before =
      .ok (⟨before.documents, before.index⟩, before.canonical) := by
  apply restore_of_target hround hdocument hbefore
  · exact fun path hpath ↦ (sides_of_mem_linkOf hpath).1
  · intro path hpath
    rw [mem_linkOf_iff, not_not] at hpath
    exact hpath.symm

theorem restore_after (hdocument : document.working.Consistent) {after : Working data}
    (hafter : after.Consistent) :
    document.restore (linkOf document.canonical after.canonical) PathBytes.after =
      .ok (⟨after.documents, after.index⟩, after.canonical) := by
  apply restore_of_target hround hdocument hafter
  · exact fun path hpath ↦ (sides_of_mem_linkOf hpath).2
  · intro path hpath
    rw [mem_linkOf_iff, not_not] at hpath
    exact hpath

end

/-! ### Opening -/

theorem canonicalOf_eq_ok {entries : List (SourcePath × data.Document)}
    {files : List (SourcePath × List UInt8)} (hfiles : canonicalOf data entries = .ok files) :
    files.map Prod.fst = entries.map Prod.fst ∧ ∀ path document, (path, document) ∈ entries →
      ∃ bytes, data.writeDocument document = .ok bytes ∧ (path, bytes) ∈ files := by
  induction entries generalizing files with
  | nil =>
    cases hfiles
    exact ⟨rfl, nofun⟩
  | cons entry rest ih =>
    obtain ⟨path, document⟩ := entry
    unfold canonicalOf at hfiles
    split at hfiles
    · cases hfiles
    · rename_i bytes hbytes
      cases hrest : canonicalOf data rest with
      | error error =>
        rw [hrest] at hfiles
        cases hfiles
      | ok others =>
        rw [hrest] at hfiles
        cases hfiles
        obtain ⟨hkeys, hothers⟩ := ih hrest
        refine ⟨by rw [List.map_cons, List.map_cons, hkeys], fun other found hmem ↦ ?_⟩
        obtain heq | hmem := List.mem_cons.mp hmem
        · cases heq
          exact ⟨bytes, hbytes, List.mem_cons_self ..⟩
        · obtain ⟨written, hwritten, hfile⟩ := hothers other found hmem
          exact ⟨written, hwritten, List.mem_cons_of_mem _ hfile⟩

theorem consistent_of_opened {documents : BTreeMap SourcePath data.Document}
    (hopened : CampaignDocument.opened documents = .ok document) :
    document.working.Consistent ∧ document.history = .default := by
  unfold CampaignDocument.opened at hopened
  split at hopened
  · cases hopened
  · rename_i index hindex
    obtain ⟨files, hfiles, hdocument⟩ := except_bind_eq_ok hopened
    cases hdocument
    obtain ⟨hkeys, hentries⟩ := canonicalOf_eq_ok hfiles
    refine ⟨⟨fun path ↦ ?_, hindex⟩, rfl⟩
    show WrittenAt documents (.ofList files) path
    unfold WrittenAt
    cases hget : documents.get? path with
    | none =>
      by_contra hsome
      obtain ⟨bytes, hbytes⟩ := Option.ne_none_iff_exists'.mp hsome
      have hpath := List.mem_map_of_mem (f := Prod.fst) (BTreeMap.mem_of_get?_ofList hbytes)
      rw [hkeys] at hpath
      obtain ⟨found, hfound⟩ := documents.mem_keys_iff.mp hpath
      rw [hget] at hfound
      cases hfound
    | some found =>
      obtain ⟨bytes, hbytes, hfile⟩ :=
        hentries path found (documents.mem_entries_iff.mpr hget)
      refine ⟨bytes, hbytes, BTreeMap.get?_foldl_insert_of_mem _ ?_ hfile⟩
      rw [hkeys]
      exact documents.nodup_keys

end Crpg.Edit
