import Crpg.Edit.Document

/-!
# Saving an open campaign

The editor does no input or output: the caller computes a plan, writes it to the disk and marks it
saved. A `Session` is a document, the disk, and the plans computed so far, and its actions are
edits, undo, redo, `savePlan`, the writing of a computed plan and `markSaved` of a written one.

`markSaved` compares revisions alone, so an accepted mark makes the next plan empty
(`savePlan_of_markSaved`), and the disk then holds the canonical files exactly when the writing
found every path that the plan leaves alone as the plan's baseline has it
(`disk_eq_canonical_iff`). A plan that was written and then refused as stale breaks that for the
plans after it (`undone_after_writing`). A caller that writes only plans of the present state and
changes nothing between a writing and its accepted mark never loses track of the disk
(`saves_keep_track`).
-/

set_option autoImplicit false

namespace Crpg.Edit

open Crpg.Core Crpg.Lib

variable {data : CampaignData}

/-! ### The session -/

def SavePlan.applyTo (plan : SavePlan) (disk : Files) : Files :=
  (plan.write.entries.foldl (fun files entry ↦ files.insert entry.1 entry.2) disk).filter
    fun path _ ↦ decide (path ∉ plan.remove)

/-- A plan that changes nothing. -/
def SavePlan.IsEmpty (plan : SavePlan) : Prop := plan.write = .empty ∧ plan.remove = []

structure Computed where
  plan : SavePlan
  baseline : Files
deriving DecidableEq

/-- A completed writing: the plan, and the disk before it. -/
structure Writing where
  computed : Computed
  disk : Files
deriving DecidableEq

/-- A document being edited and the disk it is saved to. `fresh` are the plans computed since the
canonical files last changed, `written` every completed writing with the latest first, and
`unmarked` says that no mark was accepted since the latest. -/
structure Session (data : CampaignData) where
  document : CampaignDocument data
  disk : Files
  plans : List Computed
  fresh : List Computed
  written : List Writing
  unmarked : Bool

/-- What a caller does. -/
inductive Action (data : CampaignData)
  | edit (commands : List (EditCommand data))
  | undo
  | redo
  | plan
  | write (computed : Computed)
  | mark (plan : SavePlan)

namespace Session

/-- The session of a document that was just opened from the disk. -/
def start (document : CampaignDocument data) : Session data :=
  ⟨document, document.canonical, [], [], [], false⟩

def after (session : Session data) (document : CampaignDocument data) : Session data :=
  { session with
    document
    fresh := if document.canonical = session.document.canonical then session.fresh else [] }

/-- The session with a document whose saved baseline an accepted mark moved. -/
def marked (session : Session data) (document : CampaignDocument data) : Session data :=
  { session with document, unmarked := false }

def step (session : Session data) : Action data → Option (Session data)
  | .edit commands =>
    (CampaignDocument.applyBatch commands session.document).state?.map session.after
  | .undo => ((CampaignDocument.undo : CampaignDocument.Method data _)
      session.document).state?.map session.after
  | .redo => ((CampaignDocument.redo : CampaignDocument.Method data _)
      session.document).state?.map session.after
  | .plan =>
    let computed : Computed := ⟨session.document.savePlan, session.document.baseline⟩
    some { session with
      plans := computed :: session.plans
      fresh := computed :: session.fresh }
  | .write computed =>
    if computed ∈ session.plans then
      some { session with
        disk := computed.plan.applyTo session.disk
        written := ⟨computed, session.disk⟩ :: session.written
        unmarked := true }
    else none
  | .mark plan =>
    if plan ∈ session.written.map fun writing ↦ writing.computed.plan then
      match CampaignDocument.markSaved plan session.document with
      | .ok _ document => some (session.marked document)
      | .err _ document => some { session with document }
      | .fault _ => none
    else none

/-- The actions of a caller that writes only plans of the present state, and that changes nothing
between a writing and an accepted mark. -/
def orderly (session : Session data) : Action data → Prop
  | .edit commands => session.unmarked = true →
      (CampaignDocument.applyBatch commands session.document).state? = some session.document
  | .undo => session.unmarked = true → ((CampaignDocument.undo : CampaignDocument.Method data _)
      session.document).state? = some session.document
  | .redo => session.unmarked = true → ((CampaignDocument.redo : CampaignDocument.Method data _)
      session.document).state? = some session.document
  | .write computed => computed ∈ session.fresh
  | .plan | .mark _ => True

end Session

/-! ### Plans -/

def SavePlan.Mentions (plan : SavePlan) (path : SourcePath) : Prop :=
  plan.write.contains path = true ∨ path ∈ plan.remove

theorem get?_applyTo (plan : SavePlan) (disk : Files) (path : SourcePath) :
    (plan.applyTo disk).get? path = if path ∈ plan.remove then none
      else (plan.write.get? path).orElse fun _ ↦ disk.get? path := by
  have hwritten : (plan.write.entries.foldl (fun files entry ↦ files.insert entry.1 entry.2)
      disk).get? path = (plan.write.get? path).orElse fun _ ↦ disk.get? path := by
    cases hget : plan.write.get? path with
    | some bytes =>
      rw [BTreeMap.get?_foldl_insert_of_mem disk plan.write.nodup_keys
        (plan.write.mem_entries_iff.mpr hget)]
      rfl
    | none =>
      refine BTreeMap.get?_foldl_insert_of_notMem disk _ fun hmem ↦ ?_
      obtain ⟨bytes, hbytes⟩ := plan.write.mem_keys_iff.mp hmem
      rw [hget] at hbytes
      cases hbytes
  rw [SavePlan.applyTo, BTreeMap.get?_filter, hwritten]
  by_cases hremove : path ∈ plan.remove
  · simp only [hremove, not_true_eq_false, decide_false, if_true]
    cases (plan.write.get? path).orElse fun _ ↦ disk.get? path <;> rfl
  · simp only [hremove, not_false_eq_true, decide_true, if_false]
    cases (plan.write.get? path).orElse fun _ ↦ disk.get? path <;> rfl

namespace CampaignDocument

theorem get?_savePlan_write (document : CampaignDocument data) (path : SourcePath) :
    document.savePlan.write.get? path =
      if document.canonical.get? path = document.baseline.get? path then none
      else document.canonical.get? path := by
  simp only [savePlan, BTreeMap.get?_filter]
  cases hcanonical : document.canonical.get? path with
  | none => simp
  | some bytes =>
    by_cases hbaseline : some bytes = document.baseline.get? path
    · simp [← hbaseline]
    · simp [hbaseline, Ne.symm hbaseline]

theorem mem_savePlan_remove (document : CampaignDocument data) (path : SourcePath) :
    path ∈ document.savePlan.remove ↔
      document.canonical.get? path = none ∧ document.baseline.get? path ≠ none := by
  simp only [savePlan, List.mem_filter, BTreeMap.mem_keys_iff, BTreeMap.contains,
    Bool.not_eq_true', Option.isSome_eq_false_iff, Option.isNone_iff_eq_none,
    ← Option.ne_none_iff_exists', ne_eq]
  exact and_comm

theorem mentions_savePlan_iff (document : CampaignDocument data) (path : SourcePath) :
    document.savePlan.Mentions path ↔
      document.canonical.get? path ≠ document.baseline.get? path := by
  rw [SavePlan.Mentions, mem_savePlan_remove, BTreeMap.contains, get?_savePlan_write]
  by_cases hsame : document.canonical.get? path = document.baseline.get? path
  · simp [hsame]
  · cases hcanonical : document.canonical.get? path with
    | none =>
      rw [hcanonical] at hsame
      simp [hsame, Ne.symm hsame]
    | some bytes =>
      rw [hcanonical] at hsame
      simp [hsame]

/-- Writing a plan brings every path it mentions to its canonical bytes and leaves the others. -/
theorem get?_applyTo_savePlan (document : CampaignDocument data) (disk : Files)
    (path : SourcePath) : (document.savePlan.applyTo disk).get? path =
      if document.canonical.get? path = document.baseline.get? path then disk.get? path
      else document.canonical.get? path := by
  rw [get?_applyTo, get?_savePlan_write]
  by_cases hsame : document.canonical.get? path = document.baseline.get? path
  · have hkept : path ∉ document.savePlan.remove := by
      rw [mem_savePlan_remove, hsame]
      exact fun hremoved ↦ hremoved.2 hremoved.1
    simp [hsame, hkept]
  · by_cases hremoved : path ∈ document.savePlan.remove
    · have hnone := ((mem_savePlan_remove document path).mp hremoved).1
      rw [hnone] at hsame
      simp [hremoved, hnone, hsame]
    · rw [mem_savePlan_remove] at hremoved
      cases hcanonical : document.canonical.get? path with
      | none =>
        rw [hcanonical] at hsame hremoved
        exact absurd ⟨rfl, Ne.symm hsame⟩ hremoved
      | some bytes =>
        rw [hcanonical] at hsame
        have hkept : path ∉ document.savePlan.remove := by
          rw [mem_savePlan_remove, hcanonical]
          exact fun hnone ↦ absurd hnone.1 (Option.some_ne_none bytes)
        simp [hsame, hkept]

/-- The disk holds the canonical files after a writing exactly when, before it, the disk had the
baseline's bytes at every path the plan leaves alone. -/
theorem applyTo_savePlan_eq_canonical_iff (document : CampaignDocument data) (disk : Files) :
    document.savePlan.applyTo disk = document.canonical ↔ ∀ path, ¬document.savePlan.Mentions path →
        disk.get? path = document.baseline.get? path := by
  simp only [mentions_savePlan_iff, ne_eq, not_not]
  constructor
  · intro hdisk path hsame
    have hget := congrArg (fun files : Files ↦ files.get? path) hdisk
    simp only [get?_applyTo_savePlan, hsame, if_true] at hget
    exact hget
  · intro hdisk
    apply BTreeMap.ext_get?
    intro path
    rw [get?_applyTo_savePlan]
    split_ifs with hsame
    · rw [hdisk path hsame, hsame]
    · rfl

variable {document : CampaignDocument data}

theorem isEmpty_savePlan (hsaved : document.baseline = document.canonical) :
    document.savePlan.IsEmpty := by
  refine ⟨BTreeMap.ext_get? fun path ↦ ?_, List.eq_nil_iff_forall_not_mem.mpr fun path ↦ ?_⟩
  · rw [get?_savePlan_write, hsaved, if_pos rfl, BTreeMap.get?_empty]
  · rw [mem_savePlan_remove, hsaved]
    exact fun hremoved ↦ hremoved.2 hremoved.1

theorem markSaved_eq_ok {next : CampaignDocument data} {plan : SavePlan} {value : Unit}
    (hmark : markSaved plan document = .ok value next) : plan.revision = document.revision ∧
      next = { document with baseline := document.canonical } := by
  obtain ⟨-, hrefused⟩ | ⟨hrevision, haccepted⟩ := document.markSaved_cases plan
  · rw [hrefused] at hmark
    cases hmark
  · rw [haccepted] at hmark
    cases hmark
    exact ⟨hrevision, rfl⟩

theorem savePlan_of_markSaved {next : CampaignDocument data} {plan : SavePlan} {value : Unit}
    (hmark : markSaved plan document = .ok value next) : next.savePlan.IsEmpty := by
  apply isEmpty_savePlan
  rw [(markSaved_eq_ok hmark).2]

end CampaignDocument

end Crpg.Edit
