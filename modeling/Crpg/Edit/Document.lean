import Crpg.Edit.Command
import Crpg.Lib.Call

/-!
# The open campaign document

`crpg-edit/src/document.rs`: opening a campaign, applying a batch as one undo entry, undo, redo, the
save plan and the mark of a saved plan. A method that mutates the document is a call on it, which
leaves a document behind it whether it returns a receipt or an error.

A document keeps the canonical bytes of its files beside the campaign, and the saved baseline, the
canonical bytes at the opening or at the last accepted mark. A plan is the difference of the two and
carries the revision it was computed at.
-/

set_option autoImplicit false

namespace Crpg.Edit

open Crpg.Core Crpg.Lib

variable {data : CampaignData}

structure LoadedCampaign (data : CampaignData) where
  documents : BTreeMap SourcePath data.Document
  index : Index

structure CampaignDocument (data : CampaignData) where
  campaign : LoadedCampaign data
  canonical : Files
  baseline : Files
  revision : ℕ
  history : History

inductive ChangeKind
  | created
  | modified
  | deleted
deriving DecidableEq

structure PathChange where
  path : SourcePath
  kind : ChangeKind
deriving DecidableEq

structure CommandReceipt (data : CampaignData) where
  revision : ℕ
  changes : List PathChange
  diagnostics : List data.Diagnostic

/-- `SavePlan`. The paths to remove are a set, kept in order. -/
structure SavePlan where
  revision : ℕ
  write : Files
  remove : List SourcePath
deriving DecidableEq

/-- How one path changed between two canonical maps. -/
def changeOf (before after : Files) (path : SourcePath) : Option PathChange :=
  match before.get? path, after.get? path with
  | none, some _ => some ⟨path, .created⟩
  | some _, none => some ⟨path, .deleted⟩
  | some old, some new => if old ≠ new then some ⟨path, .modified⟩ else none
  | none, none => none

def diff (before after : Files) : List PathChange :=
  let paths : BTreeMap SourcePath Unit :=
    .ofList ((before.keys ++ after.keys).map fun path ↦ (path, ()))
  paths.keys.filterMap (changeOf before after)

def canonicalOf (data : CampaignData) :
    List (SourcePath × data.Document) → Answer data (List (SourcePath × List UInt8))
  | [] => .ok []
  | (path, document) :: rest =>
    match data.writeDocument document with
    | .error diagnostic => .error (.invalid diagnostic)
    | .ok bytes => (canonicalOf data rest).map fun others ↦ (path, bytes) :: others

namespace CampaignDocument

/-- `CampaignDocument::open`. -/
def opened (documents : BTreeMap SourcePath data.Document) : Answer data (CampaignDocument data) :=
  match data.campaignIndex documents with
  | .error diagnostic => .error (.invalid diagnostic)
  | .ok index => do
    let canonical ← canonicalOf data documents.entries
    return ⟨⟨documents, index⟩, .ofList canonical, .ofList canonical, 0, .default⟩

def validate (document : CampaignDocument data) : List data.Diagnostic :=
  data.validate document.campaign.documents document.campaign.index

/-- A method that mutates the document. -/
abbrev Method (data : CampaignData) := Call (CampaignDocument data) (EditError data.Diagnostic)

def install (campaign : LoadedCampaign data) (canonical : Files) (changes : List PathChange) :
    Method data (CommandReceipt data) := do
  Call.modify fun document ↦ { document with
    campaign
    canonical
    revision := saturatingAdd u64Max document.revision 1 }
  let document ← Call.get
  return ⟨document.revision, changes, document.validate⟩

/-- The loop of `apply_batch`. -/
def applyAll : Working data → ℕ → List (EditCommand data) → Answer data (Working data)
  | work, _, [] => .ok work
  | work, index, command :: rest => do
    let next ← applyOne work index command
    applyAll next (index + 1) rest

/-- The batch's working copy. -/
def working (document : CampaignDocument data) : Working data :=
  ⟨document.campaign.documents, document.campaign.index, document.canonical⟩

def entryOf (before after : Files) (changes : List PathChange) : Entry :=
  .new (changes.map fun change ↦
    ⟨change.path, before.get? change.path, after.get? change.path⟩)

def applyBatch (commands : List (EditCommand data)) : Method data (CommandReceipt data) := do
  Call.failIf (commands = [] ∨ maxBatchCommands < commands.length) (.batchSize commands.length)
  let document ← Call.get
  let work ← Call.ofExcept (applyAll document.working 0 commands)
  let changes := diff document.canonical work.canonical
  if changes = [] then return ⟨document.revision, changes, document.validate⟩
  else
    let entry := entryOf document.canonical work.canonical changes
    Call.failIf (maxHistoryBytes < entry.bytes) (.historyTooLarge entry.bytes)
    Call.modify fun document ↦ { document with history := document.history.commit entry }
    install ⟨work.documents, work.index⟩ work.canonical changes

def apply (command : EditCommand data) : Method data (CommandReceipt data) := applyBatch [command]

/-- One path of `restore`. -/
def restoreOne (side : PathBytes → Option (List UInt8))
    (state : BTreeMap SourcePath data.Document × Files) (path : PathBytes) :
    Answer data (BTreeMap SourcePath data.Document × Files) :=
  match side path with
  | some bytes =>
    match data.readDocument bytes with
    | none => .error .historyCorrupt
    | some document => .ok (state.1.insert path.path document, state.2.insert path.path bytes)
  | none => .ok (state.1.erase path.path, state.2.erase path.path)

def restore (document : CampaignDocument data) (entry : Entry)
    (side : PathBytes → Option (List UInt8)) : Answer data (LoadedCampaign data × Files) := do
  let restored ← entry.paths.foldlM (restoreOne side)
    (document.campaign.documents, document.canonical)
  match data.campaignIndex restored.1 with
  | .error _ => .error .historyCorrupt
  | .ok index => return (⟨restored.1, index⟩, restored.2)

def undo : Method data (CommandReceipt data) := do
  let document ← Call.get
  let entry ← Call.okOr .nothingToUndo document.history.newestUndo
  let restored ← Call.ofExcept (document.restore entry PathBytes.before)
  Call.modify fun document ↦ { document with history := document.history.moveToRedo }
  install restored.1 restored.2 (diff document.canonical restored.2)

def redo : Method data (CommandReceipt data) := do
  let document ← Call.get
  let entry ← Call.okOr .nothingToRedo document.history.newestRedo
  let restored ← Call.ofExcept (document.restore entry PathBytes.after)
  Call.modify fun document ↦ { document with history := document.history.moveToUndo }
  install restored.1 restored.2 (diff document.canonical restored.2)

def savePlan (document : CampaignDocument data) : SavePlan where
  revision := document.revision
  write := document.canonical.filter fun path bytes ↦
    decide (document.baseline.get? path ≠ some bytes)
  remove := document.baseline.keys.filter fun path ↦ !document.canonical.contains path

def markSaved (plan : SavePlan) : Method data Unit := do
  let document ← Call.get
  Call.failIf (plan.revision ≠ document.revision) .staleSavePlan
  Call.set { document with baseline := document.canonical }

/-! ### What the calls do -/

def changed (document : CampaignDocument data) (campaign : LoadedCampaign data)
    (canonical : Files) (history : History) : CampaignDocument data where
  campaign
  canonical
  baseline := document.baseline
  revision := saturatingAdd u64Max document.revision 1
  history

/-- A batch fails and leaves the document, changes nothing and leaves it, or commits its entry and
installs its working copy. -/
theorem applyBatch_cases (document : CampaignDocument data) (commands : List (EditCommand data)) :
    (∃ error, applyBatch commands document = .err error document) ∨
    ∃ work, applyAll document.working 0 commands = .ok work ∧
      ((diff document.canonical work.canonical = [] ∧ applyBatch commands document =
            .ok ⟨document.revision, [], document.validate⟩ document) ∨
        (diff document.canonical work.canonical ≠ [] ∧ (entryOf document.canonical work.canonical
            (diff document.canonical work.canonical)).bytes ≤ maxHistoryBytes ∧
          ∃ receipt, receipt.changes = diff document.canonical work.canonical ∧
            applyBatch commands document = .ok receipt
            (document.changed ⟨work.documents, work.index⟩ work.canonical
              (document.history.commit (entryOf document.canonical work.canonical
                (diff document.canonical work.canonical)))))) := by
  by_cases hsize : commands = [] ∨ maxBatchCommands < commands.length
  · left
    refine ⟨.batchSize commands.length, ?_⟩
    rw [applyBatch, Call.bind_apply, Call.failIf_of hsize, Outcome.err_bind]
  · simp only [applyBatch, Call.bind_apply, Call.failIf_of_not hsize, Outcome.ok_bind,
      Call.get_apply]
    cases hwork : applyAll document.working 0 commands with
    | error error => exact Or.inl ⟨error, rfl⟩
    | ok work =>
      simp only [Call.ofExcept_ok, Outcome.ok_bind]
      by_cases hchanges : diff document.canonical work.canonical = []
      · exact Or.inr ⟨work, rfl, Or.inl ⟨hchanges, by rw [if_pos hchanges, hchanges]; rfl⟩⟩
      · rw [if_neg hchanges]
        by_cases hlarge : maxHistoryBytes < (entryOf document.canonical work.canonical
            (diff document.canonical work.canonical)).bytes
        · left
          rw [Call.bind_apply, Call.failIf_of hlarge]
          exact ⟨_, rfl⟩
        · right
          rw [Call.bind_apply, Call.failIf_of_not hlarge]
          exact ⟨work, rfl, Or.inr ⟨hchanges, not_lt.mp hlarge, _, rfl, rfl⟩⟩

theorem undo_cases (document : CampaignDocument data) :
    (∃ error, (undo : Method data _) document = .err error document ∧
      (document.history.newestUndo = none ∨ ∃ entry, document.history.newestUndo = some entry ∧
        document.restore entry PathBytes.before = .error error)) ∨
    ∃ entry restored receipt, document.history.newestUndo = some entry ∧
      document.restore entry PathBytes.before = .ok restored ∧
      (undo : Method data _) document = .ok receipt
        (document.changed restored.1 restored.2 document.history.moveToRedo) := by
  simp only [undo, Call.bind_apply, Call.get_apply, Outcome.ok_bind]
  cases hentry : document.history.newestUndo with
  | none => exact Or.inl ⟨.nothingToUndo, rfl, Or.inl rfl⟩
  | some entry =>
    simp only [Call.okOr, Call.pure_apply, Outcome.ok_bind]
    cases hrestored : document.restore entry PathBytes.before with
    | error error => exact Or.inl ⟨error, rfl, Or.inr ⟨entry, rfl, hrestored⟩⟩
    | ok restored => exact Or.inr ⟨entry, restored, _, rfl, hrestored, rfl⟩

theorem redo_cases (document : CampaignDocument data) :
    (∃ error, (redo : Method data _) document = .err error document ∧
      (document.history.newestRedo = none ∨ ∃ entry, document.history.newestRedo = some entry ∧
        document.restore entry PathBytes.after = .error error)) ∨
    ∃ entry restored receipt, document.history.newestRedo = some entry ∧
      document.restore entry PathBytes.after = .ok restored ∧
      (redo : Method data _) document = .ok receipt
        (document.changed restored.1 restored.2 document.history.moveToUndo) := by
  simp only [redo, Call.bind_apply, Call.get_apply, Outcome.ok_bind]
  cases hentry : document.history.newestRedo with
  | none => exact Or.inl ⟨.nothingToRedo, rfl, Or.inl rfl⟩
  | some entry =>
    simp only [Call.okOr, Call.pure_apply, Outcome.ok_bind]
    cases hrestored : document.restore entry PathBytes.after with
    | error error => exact Or.inl ⟨error, rfl, Or.inr ⟨entry, rfl, hrestored⟩⟩
    | ok restored => exact Or.inr ⟨entry, restored, _, rfl, hrestored, rfl⟩

theorem markSaved_cases (document : CampaignDocument data) (plan : SavePlan) :
    (plan.revision ≠ document.revision ∧ markSaved plan document = .err .staleSavePlan document) ∨
    (plan.revision = document.revision ∧
      markSaved plan document = .ok () { document with baseline := document.canonical }) := by
  by_cases hstale : plan.revision ≠ document.revision
  · left
    simp only [markSaved, Call.bind_apply, Call.get_apply, Outcome.ok_bind,
      Call.failIf_of hstale, Outcome.err_bind]
    exact ⟨hstale, trivial⟩
  · right
    simp only [markSaved, Call.bind_apply, Call.get_apply, Outcome.ok_bind,
      Call.failIf_of_not hstale, Call.set_apply]
    exact ⟨not_not.mp hstale, trivial⟩

end CampaignDocument

end Crpg.Edit
