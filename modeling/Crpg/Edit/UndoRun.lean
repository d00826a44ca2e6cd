import Crpg.Edit.SavingRun
import Crpg.Lib.Undo

/-!
# Undo and redo over whole runs

A `Recording` is a document beside the track of its states: the working copies before each retained
change, the present one and the undone ones. Its step applies one call of the editor to the document
and the corresponding move to the track.

`Recorded` is the invariant: the working copies of the track are consistent, the present one is the
document's, and the entries of the history link the track. It is kept by every call
(`Recorded.step`), so undo and redo restore exactly the states of the track and never find a corrupt
history (`undo_redo_restore`).
-/

set_option autoImplicit false

namespace Crpg.Edit

open Crpg.Core Crpg.Lib Crpg.Net

variable {data : CampaignData}

/-! ### The history -/

namespace History

/-- What every history satisfies: it counts the bytes of its entries, within both caps, and each
entry counts its own sides. -/
structure Bounded (history : History) : Prop where
  bytes_eq : history.bytes = ((history.undo ++ history.redo).map Entry.bytes).sum
  bytes_le : history.bytes ≤ maxHistoryBytes
  count_le : history.undo.length + history.redo.length ≤ maxUndoEntries
  sizes : ∀ entry ∈ history.undo ++ history.redo, entry.bytes = entry.size

theorem bounded_default : History.default.Bounded :=
  ⟨rfl, Nat.zero_le _, Nat.zero_le _, nofun⟩

theorem foldl_sub (entries : List Entry) (bytes : ℕ) :
    entries.foldl (fun bytes dropped ↦ bytes - dropped.bytes) bytes =
      bytes - (entries.map Entry.bytes).sum := by
  induction entries generalizing bytes with
  | nil => rfl
  | cons entry rest ih => rw [List.foldl_cons, ih, List.map_cons, List.sum_cons, Nat.sub_sub]

/-- Eviction drops some oldest entries, never the newest, until both bounds hold. -/
theorem evict_append {older : List Entry} {newest : Entry} {bytes : ℕ}
    (hbytes : bytes = ((older ++ [newest]).map Entry.bytes).sum)
    (hnewest : newest.bytes ≤ maxHistoryBytes) : ∃ count ≤ older.length,
      evict (older ++ [newest]) bytes = (older.drop count ++ [newest],
        ((older.drop count ++ [newest]).map Entry.bytes).sum) ∧
      (older.drop count ++ [newest]).length ≤ maxUndoEntries ∧
      ((older.drop count ++ [newest]).map Entry.bytes).sum ≤ maxHistoryBytes := by
  induction older generalizing bytes with
  | nil =>
    have hsum : bytes = newest.bytes := by simpa using hbytes
    refine ⟨0, le_rfl, ?_, (by decide : 1 ≤ maxUndoEntries), by simpa using hnewest⟩
    rw [List.nil_append, evict, if_neg, hsum]
    · simp
    · rw [hsum, not_or, not_lt, not_lt]
      exact ⟨(by decide : 1 ≤ maxUndoEntries), hnewest⟩
  | cons oldest rest ih =>
    rw [List.cons_append, List.map_cons, List.sum_cons] at hbytes
    rw [List.cons_append, evict]
    by_cases hevicted :
        maxUndoEntries < (oldest :: (rest ++ [newest])).length ∨ maxHistoryBytes < bytes
    · rw [if_pos hevicted]
      have hrest : bytes - oldest.bytes = ((rest ++ [newest]).map Entry.bytes).sum := by omega
      obtain ⟨count, hcount, hkept⟩ := ih hrest
      refine ⟨count + 1, ?_, ?_⟩
      · rw [List.length_cons]
        omega
      · rw [List.drop_succ_cons]
        exact hkept
    · rw [if_neg hevicted]
      rw [not_or, not_lt, not_lt] at hevicted
      refine ⟨0, Nat.zero_le _, ?_, hevicted.1, ?_⟩
      · rw [List.drop_zero, List.cons_append, List.map_cons, List.sum_cons, hbytes]
      · rw [List.drop_zero, List.cons_append, List.map_cons, List.sum_cons, ← hbytes]
        exact hevicted.2

variable {history : History} {entry : Entry}

/-- A commit keeps its entry behind some newest older ones and empties the redo stack. -/
theorem commit_eq (hbounded : history.Bounded) (hfits : entry.bytes ≤ maxHistoryBytes)
    (hsize : entry.bytes = entry.size) : ∃ count ≤ history.undo.length,
      (history.commit entry).undo = history.undo.drop count ++ [entry] ∧
      (history.commit entry).redo = [] ∧ (history.commit entry).Bounded := by
  have hcap : maxHistoryBytes = 33554432 := rfl
  have husize : usizeMax = 18446744073709551615 := rfl
  have hsum := hbounded.bytes_eq
  have hle := hbounded.bytes_le
  rw [List.map_append, List.sum_append] at hsum
  have hcleared : saturatingAdd usizeMax (history.redo.foldl
      (fun bytes dropped ↦ bytes - dropped.bytes) history.bytes) entry.bytes =
        ((history.undo ++ [entry]).map Entry.bytes).sum := by
    rw [foldl_sub, List.map_append, List.sum_append, List.map_singleton, List.sum_singleton,
      saturatingAdd]
    omega
  obtain ⟨count, hcount, hevict, hlength, hbytes⟩ := evict_append hcleared hfits
  have hcommit : history.commit entry = ⟨history.undo.drop count ++ [entry], [],
      ((history.undo.drop count ++ [entry]).map Entry.bytes).sum⟩ := by
    simp only [commit, hevict]
  refine ⟨count, hcount, ?_, ?_, ?_⟩
  · rw [hcommit]
  · rw [hcommit]
  · rw [hcommit]
    refine ⟨by rw [List.append_nil], hbytes, hlength, fun other hother ↦ ?_⟩
    rw [List.append_nil, List.mem_append, List.mem_singleton] at hother
    obtain hold | hnew := hother
    · exact hbounded.sizes other (List.mem_append_left _ (List.mem_of_mem_drop hold))
    · rw [hnew]
      exact hsize

theorem moveToRedo_eq (hentry : history.newestUndo = some entry) :
    history.undo = history.undo.dropLast ++ [entry] ∧ history.moveToRedo =
        { history with undo := history.undo.dropLast, redo := history.redo ++ [entry] } := by
  have hlast : history.undo.getLast? = some entry := hentry
  refine ⟨(List.dropLast_append_getLast? entry hlast).symm, ?_⟩
  simp only [moveToRedo, hlast]

theorem moveToUndo_eq (hentry : history.newestRedo = some entry) :
    history.redo = history.redo.dropLast ++ [entry] ∧ history.moveToUndo =
        { history with undo := history.undo ++ [entry], redo := history.redo.dropLast } := by
  have hlast : history.redo.getLast? = some entry := hentry
  refine ⟨(List.dropLast_append_getLast? entry hlast).symm, ?_⟩
  simp only [moveToUndo, hlast]

theorem moveToUndo_moveToRedo (hentry : history.newestUndo = some entry) :
    history.moveToRedo.moveToUndo = history := by
  obtain ⟨hundo, hmoved⟩ := moveToRedo_eq hentry
  have hback : history.moveToRedo.newestRedo = some entry := by
    rw [hmoved]
    exact List.getLast?_concat
  rw [(moveToUndo_eq hback).2, hmoved]
  simp only [← hundo, List.dropLast_concat]

theorem moveToRedo_moveToUndo (hentry : history.newestRedo = some entry) :
    history.moveToUndo.moveToRedo = history := by
  obtain ⟨hredo, hmoved⟩ := moveToUndo_eq hentry
  have hback : history.moveToUndo.newestUndo = some entry := by
    rw [hmoved]
    exact List.getLast?_concat
  rw [(moveToRedo_eq hback).2, hmoved]
  simp only [← hredo, List.dropLast_concat]

/-- A move of one entry between the stacks keeps what is counted. -/
theorem Bounded.moved {moved : History} (hbounded : history.Bounded)
    (hperm : (moved.undo ++ moved.redo).Perm (history.undo ++ history.redo))
    (hbytes : moved.bytes = history.bytes) : moved.Bounded where
  bytes_eq := by rw [hbytes, hbounded.bytes_eq, (hperm.map Entry.bytes).sum_eq]
  bytes_le := by
    rw [hbytes]
    exact hbounded.bytes_le
  count_le := by
    rw [← List.length_append, hperm.length_eq, List.length_append]
    exact hbounded.count_le
  sizes := fun entry hentry ↦ hbounded.sizes entry (hperm.subset hentry)

theorem Bounded.moveToRedo (hbounded : history.Bounded) (hentry : history.newestUndo = some entry) :
    history.moveToRedo.Bounded := by
  obtain ⟨hundo, hmoved⟩ := moveToRedo_eq hentry
  rw [hmoved]
  apply hbounded.moved
  · show (history.undo.dropLast ++ (history.redo ++ [entry])).Perm _
    conv_rhs => rw [hundo, List.append_assoc]
    exact List.perm_append_comm.append_left _
  · rfl

theorem Bounded.moveToUndo (hbounded : history.Bounded) (hentry : history.newestRedo = some entry) :
    history.moveToUndo.Bounded := by
  obtain ⟨hredo, hmoved⟩ := moveToUndo_eq hentry
  rw [hmoved]
  apply hbounded.moved
  · show (history.undo ++ [entry] ++ history.redo.dropLast).Perm _
    conv_rhs => rw [hredo]
    rw [List.append_assoc]
    exact List.perm_append_comm.append_left _
  · rfl

end History

/-! ### Recordings -/

structure Recording (data : CampaignData) where
  document : CampaignDocument data
  track : Track (Working data)

/-- A call of the editor. -/
inductive Operation (data : CampaignData)
  | apply (command : EditCommand data)
  | applyBatch (commands : List (EditCommand data))
  | undo
  | redo
  | savePlan
  | markSaved (plan : SavePlan)

namespace Recording

def start (document : CampaignDocument data) : Recording data :=
  ⟨document, ⟨[], document.working, []⟩⟩

/-- What a batch leaves: a change is a new state of the track, of which as many steps back are kept
as the history keeps entries. -/
def committed (recording : Recording data) :
    Outcome (CampaignDocument data) (EditError data.Diagnostic) (CommandReceipt data) →
      Option (Recording data)
  | .ok receipt next => some ⟨next, if receipt.changes = [] then recording.track
      else recording.track.commit next.working next.history.undo.length⟩
  | .err _ next => some ⟨next, recording.track⟩
  | .fault _ => none

/-- What undo or redo leaves: a success is a move of the track. -/
def moved (recording : Recording data) (move : Track (Working data) → Option (Track (Working data))) :
    Outcome (CampaignDocument data) (EditError data.Diagnostic) (CommandReceipt data) →
      Option (Recording data)
  | .ok _ next => (move recording.track).map fun track ↦ ⟨next, track⟩
  | .err _ next => some ⟨next, recording.track⟩
  | .fault _ => none

/-- One call. -/
def step (recording : Recording data) : Operation data → Option (Recording data)
  | .apply command => recording.committed (CampaignDocument.apply command recording.document)
  | .applyBatch commands =>
    recording.committed (CampaignDocument.applyBatch commands recording.document)
  | .undo => recording.moved Track.undo
      ((CampaignDocument.undo : CampaignDocument.Method data _) recording.document)
  | .redo => recording.moved Track.redo
      ((CampaignDocument.redo : CampaignDocument.Method data _) recording.document)
  | .savePlan => some recording
  | .markSaved plan => (CampaignDocument.markSaved plan recording.document).state?.map fun next ↦
      ⟨next, recording.track⟩

/-- What every recording of a run satisfies. -/
structure Recorded (recording : Recording data) : Prop where
  present : recording.document.working = recording.track.present
  consistent : recording.track.present.Consistent
  past : ∀ work ∈ recording.track.past, work.Consistent
  future : ∀ work ∈ recording.track.future, work.Consistent
  undo : Linked (fun before after ↦ linkOf before.canonical after.canonical)
    recording.document.history.undo recording.track.past recording.track.present
  redo : Linked (fun after before ↦ linkOf before.canonical after.canonical)
    recording.document.history.redo recording.track.future recording.track.present
  bounded : recording.document.history.Bounded

theorem recorded_start {documents : BTreeMap SourcePath data.Document}
    {document : CampaignDocument data}
    (hopened : CampaignDocument.opened documents = .ok document) : (start document).Recorded := by
  obtain ⟨hconsistent, hhistory⟩ := consistent_of_opened hopened
  refine ⟨rfl, hconsistent, nofun, nofun, ?_, ?_, ?_⟩
  · show Linked _ document.history.undo [] document.working
    rw [hhistory]
    exact .nil _
  · show Linked _ document.history.redo [] document.working
    rw [hhistory]
    exact .nil _
  · show document.history.Bounded
    rw [hhistory]
    exact History.bounded_default

variable {recording : Recording data}

theorem Recorded.commit (hrecorded : recording.Recorded) {work : Working data}
    (hwork : work.Consistent)
    (hfits : (linkOf recording.document.canonical work.canonical).bytes ≤ maxHistoryBytes)
    {next : CampaignDocument data}
    (hnext : next = recording.document.changed ⟨work.documents, work.index⟩ work.canonical
      (recording.document.history.commit (linkOf recording.document.canonical work.canonical))) :
    Recorded ⟨next, recording.track.commit next.working next.history.undo.length⟩ := by
  obtain ⟨count, hcount, hundo, hredo, hbounded⟩ :=
    History.commit_eq hrecorded.bounded hfits (bytes_linkOf hfits)
  have hlink : linkOf recording.document.canonical work.canonical =
      linkOf recording.track.present.canonical work.canonical := by rw [← hrecorded.present]; rfl
  have hlinked := hrecorded.undo.snoc work
  have hlength := hrecorded.undo.length_eq
  have hworking : next.working = work := by rw [hnext]; rfl
  have hhistory : next.history = recording.document.history.commit
      (linkOf recording.document.canonical work.canonical) := by rw [hnext]; rfl
  have hkept : recording.track.past.length + 1 - next.history.undo.length = count := by
    rw [hhistory, hundo, List.length_append, List.length_drop, List.length_singleton]
    omega
  have hdropped : (recording.track.past ++ [recording.track.present]).drop count =
      recording.track.past.drop count ++ [recording.track.present] :=
    List.drop_append_of_le_length (hlength ▸ hcount)
  have hpast : (recording.track.commit next.working next.history.undo.length).past =
      recording.track.past.drop count ++ [recording.track.present] := by
    show (recording.track.past ++ [recording.track.present]).drop _ = _
    rw [hkept, hdropped]
  refine ⟨rfl, ?_, ?_, nofun, ?_, ?_, ?_⟩
  · show next.working.Consistent
    rw [hworking]
    exact hwork
  · show ∀ past ∈ (recording.track.commit next.working next.history.undo.length).past, _
    rw [hpast]
    intro past hmem
    obtain hold | hnew := List.mem_append.mp hmem
    · exact hrecorded.past past (List.mem_of_mem_drop hold)
    · rw [List.mem_singleton.mp hnew]
      exact hrecorded.consistent
  · show Linked _ next.history.undo
      (recording.track.commit next.working next.history.undo.length).past next.working
    rw [hpast, hhistory, hundo, hworking, hlink]
    exact (hrecorded.undo.drop count).snoc work
  · show Linked _ next.history.redo [] next.working
    rw [hhistory, hredo]
    exact .nil _
  · show next.history.Bounded
    rw [hhistory]
    exact hbounded

theorem Recorded.applyBatch (hrecorded : recording.Recorded) (commands : List (EditCommand data)) :
    (∃ error, CampaignDocument.applyBatch commands recording.document =
      .err error recording.document) ∨
    ∃ receipt next, CampaignDocument.applyBatch commands recording.document = .ok receipt next ∧
      receipt.changes = diff recording.document.canonical next.canonical ∧
      (receipt.changes = [] → next = recording.document) ∧
      (receipt.changes ≠ [] → next.history.redo = [] ∧
        next.history.newestUndo = some (linkOf recording.document.canonical next.canonical) ∧
        Recorded ⟨next, recording.track.commit next.working next.history.undo.length⟩) := by
  have hpresent : recording.document.working.Consistent := by
    rw [hrecorded.present]
    exact hrecorded.consistent
  obtain hfailed | ⟨work, hwork, ⟨hsame, hok⟩ | ⟨hchanges, hfits, receipt, hreceipt, hok⟩⟩ :=
    recording.document.applyBatch_cases commands
  · exact Or.inl hfailed
  · refine Or.inr ⟨_, _, hok, ?_, fun _ ↦ rfl, fun hchanges ↦ absurd rfl hchanges⟩
    symm
    apply List.eq_nil_iff_forall_not_mem.mpr
    intro change hmem
    have hpath := List.mem_map_of_mem (f := PathChange.path) hmem
    exact (mem_diff_iff _ _ _).mp hpath rfl
  · refine Or.inr ⟨receipt, _, hok, hreceipt, fun hnone ↦ ?_, fun _ ↦ ?_⟩
    · exact absurd (hreceipt.symm.trans hnone) hchanges
    · obtain ⟨count, -, hundo, hredo, -⟩ :=
        History.commit_eq hrecorded.bounded hfits (bytes_linkOf hfits)
      refine ⟨hredo, ?_, hrecorded.commit (hpresent.applyAll hwork) hfits rfl⟩
      show (recording.document.history.commit _).undo.getLast? = _
      rw [hundo, List.getLast?_concat]
      rfl

theorem Recorded.undone (hround : RoundTrips data) (hrecorded : recording.Recorded) :
    (recording.track.undo = none ∧
      (CampaignDocument.undo : CampaignDocument.Method data _) recording.document =
        .err .nothingToUndo recording.document) ∨
    ∃ earlier receipt next, recording.track.undo = some earlier ∧
      (CampaignDocument.undo : CampaignDocument.Method data _) recording.document =
        .ok receipt next ∧
      next.working = earlier.present ∧ next.baseline = recording.document.baseline ∧
      next.history = recording.document.history.moveToRedo ∧
      next.history.moveToUndo = recording.document.history ∧ Recorded ⟨next, earlier⟩ := by
  have hpresent : recording.document.working.Consistent := by
    rw [hrecorded.present]
    exact hrecorded.consistent
  cases hentry : recording.document.history.newestUndo with
  | none =>
    left
    have hnone := hrecorded.undo.getLast?_eq_none_iff.mp hentry
    refine ⟨by rw [Track.undo, hnone, Option.map_none], ?_⟩
    simp only [CampaignDocument.undo, Call.bind_apply, Call.get_apply, Outcome.ok_bind, hentry]
    rfl
  | some entry =>
    right
    obtain ⟨before, hbefore, hjoin, hlinked⟩ := hrecorded.undo.getLast? hentry
    obtain ⟨hundo, hmoved⟩ := History.moveToRedo_eq hentry
    have hmem := List.mem_of_getLast? hbefore
    have hrestore := restore_before hround hpresent (hrecorded.past before hmem)
    have hentryEq : entry = linkOf before.canonical recording.document.canonical := by
      rw [hjoin, ← hrecorded.present]
      rfl
    rw [← hentryEq] at hrestore
    obtain ⟨error, -, hnone | ⟨found, hfound, herror⟩⟩ | ⟨found, restored, receipt, hfound,
      hrestored, hok⟩ := recording.document.undo_cases
    · rw [hentry] at hnone
      cases hnone
    · rw [hentry, Option.some.injEq] at hfound
      rw [← hfound, hrestore] at herror
      cases herror
    · rw [hentry, Option.some.injEq] at hfound
      rw [← hfound, hrestore, Except.ok.injEq] at hrestored
      subst hrestored
      refine ⟨⟨recording.track.past.dropLast, before,
        recording.track.future ++ [recording.track.present]⟩, receipt, _,
        by rw [Track.undo, hbefore, Option.map_some], hok, rfl, rfl, rfl,
        History.moveToUndo_moveToRedo hentry, rfl,
        hrecorded.past before hmem, fun work hwork ↦ ?_, fun work hwork ↦ ?_, ?_, ?_,
        hrecorded.bounded.moveToRedo hentry⟩
      · exact hrecorded.past work (List.mem_of_mem_dropLast hwork)
      · obtain hold | hnew := List.mem_append.mp hwork
        · exact hrecorded.future work hold
        · rw [List.mem_singleton.mp hnew]
          exact hrecorded.consistent
      · show Linked _ recording.document.history.moveToRedo.undo _ _
        rw [hmoved]
        exact hlinked
      · show Linked _ recording.document.history.moveToRedo.redo _ _
        rw [hmoved, hjoin]
        exact hrecorded.redo.snoc before

theorem Recorded.redone (hround : RoundTrips data) (hrecorded : recording.Recorded) :
    (recording.track.redo = none ∧
      (CampaignDocument.redo : CampaignDocument.Method data _) recording.document =
        .err .nothingToRedo recording.document) ∨
    ∃ later receipt next, recording.track.redo = some later ∧
      (CampaignDocument.redo : CampaignDocument.Method data _) recording.document =
        .ok receipt next ∧
      next.working = later.present ∧ next.baseline = recording.document.baseline ∧
      next.history = recording.document.history.moveToUndo ∧
      next.history.moveToRedo = recording.document.history ∧ Recorded ⟨next, later⟩ := by
  have hpresent : recording.document.working.Consistent := by
    rw [hrecorded.present]
    exact hrecorded.consistent
  cases hentry : recording.document.history.newestRedo with
  | none =>
    left
    have hnone := hrecorded.redo.getLast?_eq_none_iff.mp hentry
    refine ⟨by rw [Track.redo, hnone, Option.map_none], ?_⟩
    simp only [CampaignDocument.redo, Call.bind_apply, Call.get_apply, Outcome.ok_bind, hentry]
    rfl
  | some entry =>
    right
    obtain ⟨after, hafter, hjoin, hlinked⟩ := hrecorded.redo.getLast? hentry
    obtain ⟨hredo, hmoved⟩ := History.moveToUndo_eq hentry
    have hmem := List.mem_of_getLast? hafter
    have hrestore := restore_after hround hpresent (hrecorded.future after hmem)
    have hentryEq : entry = linkOf recording.document.canonical after.canonical := by
      rw [hjoin, ← hrecorded.present]
      rfl
    rw [← hentryEq] at hrestore
    obtain ⟨error, -, hnone | ⟨found, hfound, herror⟩⟩ | ⟨found, restored, receipt, hfound,
      hrestored, hok⟩ := recording.document.redo_cases
    · rw [hentry] at hnone
      cases hnone
    · rw [hentry, Option.some.injEq] at hfound
      rw [← hfound, hrestore] at herror
      cases herror
    · rw [hentry, Option.some.injEq] at hfound
      rw [← hfound, hrestore, Except.ok.injEq] at hrestored
      subst hrestored
      refine ⟨⟨recording.track.past ++ [recording.track.present], after,
        recording.track.future.dropLast⟩, receipt, _,
        by rw [Track.redo, hafter, Option.map_some], hok, rfl, rfl, rfl,
        History.moveToRedo_moveToUndo hentry, rfl,
        hrecorded.future after hmem, fun work hwork ↦ ?_, fun work hwork ↦ ?_, ?_, ?_,
        hrecorded.bounded.moveToUndo hentry⟩
      · obtain hold | hnew := List.mem_append.mp hwork
        · exact hrecorded.past work hold
        · rw [List.mem_singleton.mp hnew]
          exact hrecorded.consistent
      · exact hrecorded.future work (List.mem_of_mem_dropLast hwork)
      · show Linked _ recording.document.history.moveToUndo.undo _ _
        rw [hmoved, hjoin]
        exact hrecorded.undo.snoc after
      · show Linked _ recording.document.history.moveToUndo.redo _ _
        rw [hmoved]
        exact hlinked

theorem Recorded.committed (hrecorded : recording.Recorded) (commands : List (EditCommand data)) :
    ∃ next,
      recording.committed (CampaignDocument.applyBatch commands recording.document) = some next ∧
        next.Recorded := by
  obtain ⟨error, herror⟩ | ⟨receipt, next, hok, -, hsame, hchanged⟩ :=
    hrecorded.applyBatch commands
  · rw [herror]
    exact ⟨recording, rfl, hrecorded⟩
  · rw [hok]
    by_cases hchanges : receipt.changes = []
    · rw [Recording.committed, if_pos hchanges, hsame hchanges]
      exact ⟨recording, rfl, hrecorded⟩
    · rw [Recording.committed, if_neg hchanges]
      exact ⟨_, rfl, (hchanged hchanges).2.2⟩

theorem Recorded.step (hround : RoundTrips data) (hrecorded : recording.Recorded)
    (operation : Operation data) :
    ∃ next, recording.step operation = some next ∧ next.Recorded := by
  cases operation with
  | apply command => exact hrecorded.committed [command]
  | applyBatch commands => exact hrecorded.committed commands
  | undo =>
    simp only [Recording.step]
    obtain ⟨-, herror⟩ | ⟨earlier, receipt, next, hundo, hok, -, -, -, -, hnext⟩ :=
      hrecorded.undone hround
    · rw [herror]
      exact ⟨recording, rfl, hrecorded⟩
    · rw [hok, Recording.moved, hundo]
      exact ⟨_, rfl, hnext⟩
  | redo =>
    simp only [Recording.step]
    obtain ⟨-, herror⟩ | ⟨later, receipt, next, hredo, hok, -, -, -, -, hnext⟩ :=
      hrecorded.redone hround
    · rw [herror]
      exact ⟨recording, rfl, hrecorded⟩
    · rw [hok, Recording.moved, hredo]
      exact ⟨_, rfl, hnext⟩
  | savePlan => exact ⟨recording, rfl, hrecorded⟩
  | markSaved plan =>
    simp only [Recording.step]
    obtain ⟨-, hrefused⟩ | ⟨-, haccepted⟩ := recording.document.markSaved_cases plan
    · rw [hrefused]
      exact ⟨recording, rfl, hrecorded⟩
    · rw [haccepted]
      exact ⟨_, rfl, hrecorded.present, hrecorded.consistent, hrecorded.past, hrecorded.future,
        hrecorded.undo, hrecorded.redo, hrecorded.bounded⟩

end Recording

/-! ### Errors -/

def LeavesOnError {α : Type} (method : CampaignDocument.Method data α) : Prop :=
  ∀ document error next, method document = .err error next → next = document

theorem leavesOnError_applyBatch (commands : List (EditCommand data)) :
    LeavesOnError (CampaignDocument.applyBatch commands : CampaignDocument.Method data _) := by
  intro document error next herr
  obtain ⟨_, hfailed⟩ | ⟨work, -, ⟨-, hok⟩ | ⟨-, -, _, -, hok⟩⟩ := document.applyBatch_cases commands
  · rw [hfailed] at herr
    cases herr
    rfl
  · rw [hok] at herr
    cases herr
  · rw [hok] at herr
    cases herr

theorem leavesOnError_undo :
    LeavesOnError (CampaignDocument.undo : CampaignDocument.Method data _) := by
  intro document error next herr
  obtain ⟨_, hfailed, -⟩ | ⟨_, _, _, -, -, hok⟩ := document.undo_cases
  · rw [hfailed] at herr
    cases herr
    rfl
  · rw [hok] at herr
    cases herr

theorem leavesOnError_redo :
    LeavesOnError (CampaignDocument.redo : CampaignDocument.Method data _) := by
  intro document error next herr
  obtain ⟨_, hfailed, -⟩ | ⟨_, _, _, -, -, hok⟩ := document.redo_cases
  · rw [hfailed] at herr
    cases herr
    rfl
  · rw [hok] at herr
    cases herr

theorem leavesOnError_markSaved (plan : SavePlan) :
    LeavesOnError (CampaignDocument.markSaved plan : CampaignDocument.Method data _) := by
  intro document error next herr
  obtain ⟨-, hrefused⟩ | ⟨-, haccepted⟩ := document.markSaved_cases plan
  · rw [hrefused] at herr
    cases herr
    rfl
  · rw [haccepted] at herr
    cases herr

/-! ### Undo and redo -/

/-- Undo and redo. In every run of calls on an opened document, the working copy is the track's
present and consistent, and the history is bounded. Undo restores the state before the newest
retained change and redo the state after it, each taking back the other with the history; they fail
only where there is none. A batch with changes commits its entry and empties redo, one without
leaves the document, and every call returns. A call that fails leaves every document. Assumes: an
opened document, and that a written document is read back. -/
theorem undo_redo_restore (hround : RoundTrips data)
    {documents : BTreeMap SourcePath data.Document} {document : CampaignDocument data}
    (hopened : CampaignDocument.opened documents = .ok document) : (∀ operations recording,
      run Recording.step (Recording.start document) operations = some recording →
        recording.document.working = recording.track.present ∧
        recording.document.working.Consistent ∧ recording.document.history.Bounded ∧
        ((recording.track.undo = none ∧ (CampaignDocument.undo : CampaignDocument.Method data _)
            recording.document = .err .nothingToUndo recording.document) ∨
          ∃ earlier receipt next again last, recording.track.undo = some earlier ∧
            CampaignDocument.undo recording.document = .ok receipt next ∧
            next.working = earlier.present ∧ CampaignDocument.redo next = .ok again last ∧
            last.working = recording.document.working ∧ last.history = recording.document.history) ∧
        ((recording.track.redo = none ∧ (CampaignDocument.redo : CampaignDocument.Method data _)
            recording.document = .err .nothingToRedo recording.document) ∨
          ∃ later receipt next again last, recording.track.redo = some later ∧
            CampaignDocument.redo recording.document = .ok receipt next ∧
            next.working = later.present ∧ CampaignDocument.undo next = .ok again last ∧
            last.working = recording.document.working ∧ last.history = recording.document.history) ∧
        (∀ commands receipt next,
          CampaignDocument.applyBatch commands recording.document = .ok receipt next →
            receipt.changes = diff recording.document.canonical next.canonical ∧
            (receipt.changes = [] → next = recording.document) ∧
            (receipt.changes ≠ [] → next.history.redo = [] ∧ next.history.newestUndo =
              some (linkOf recording.document.canonical next.canonical))) ∧
        ∀ operation, ∃ next, recording.step operation = some next) ∧ (∀ commands,
      LeavesOnError (CampaignDocument.applyBatch commands : CampaignDocument.Method data _)) ∧
    LeavesOnError (CampaignDocument.undo : CampaignDocument.Method data _) ∧
    LeavesOnError (CampaignDocument.redo : CampaignDocument.Method data _) ∧
    ∀ plan, LeavesOnError (CampaignDocument.markSaved plan : CampaignDocument.Method data _) := by
  refine ⟨fun operations recording hrun ↦ ?_, leavesOnError_applyBatch, leavesOnError_undo,
    leavesOnError_redo, leavesOnError_markSaved⟩
  have hrecorded : recording.Recorded := by
    refine run_preserves ?_ (Recording.recorded_start hopened) hrun
    intro before operation after hbefore hstep
    obtain ⟨next, hnext, hkept⟩ := hbefore.step hround operation
    rw [hstep] at hnext
    cases hnext
    exact hkept
  refine ⟨hrecorded.present, ?_, hrecorded.bounded, ?_, ?_, fun commands receipt next hok ↦ ?_,
    fun operation ↦ ?_⟩
  · rw [hrecorded.present]
    exact hrecorded.consistent
  · obtain hnone | ⟨earlier, receipt, next, hundo, hok, hworking, -, -, hhistory, hnext⟩ :=
      hrecorded.undone hround
    · exact Or.inl hnone
    · right
      have hback := Track.redo_of_undo hundo
      obtain ⟨hnone, -⟩ | ⟨later, again, last, hredo, hagain, hlast, -, hlastHistory, -, -⟩ :=
        hnext.redone hround
      · rw [hback] at hnone
        cases hnone
      · rw [hback, Option.some.injEq] at hredo
        refine ⟨earlier, receipt, next, again, last, hundo, hok, hworking, hagain, ?_, ?_⟩
        · rw [hlast, ← hredo, hrecorded.present]
        · rw [hlastHistory, hhistory]
  · obtain hnone | ⟨later, receipt, next, hredo, hok, hworking, -, -, hhistory, hnext⟩ :=
      hrecorded.redone hround
    · exact Or.inl hnone
    · right
      have hback := Track.undo_of_redo hredo
      obtain ⟨hnone, -⟩ | ⟨earlier, again, last, hundo, hagain, hlast, -, hlastHistory, -, -⟩ :=
        hnext.undone hround
      · rw [hback] at hnone
        cases hnone
      · rw [hback, Option.some.injEq] at hundo
        refine ⟨later, receipt, next, again, last, hredo, hok, hworking, hagain, ?_, ?_⟩
        · rw [hlast, ← hundo, hrecorded.present]
        · rw [hlastHistory, hhistory]
  · obtain ⟨error, herror⟩ | ⟨found, after, hfound, hchanges, hsame, hchanged⟩ :=
      hrecorded.applyBatch commands
    · rw [herror] at hok
      cases hok
    · rw [hfound] at hok
      cases hok
      exact ⟨hchanges, hsame, fun hne ↦ ⟨(hchanged hne).1, (hchanged hne).2.1⟩⟩
  · obtain ⟨next, hnext, -⟩ := hrecorded.step hround operation
    exact ⟨next, hnext⟩

/-- The small campaign with a writer that refuses what its reader refuses. -/
def readableData : CampaignData :=
  { sampleData with
    writeDocument := fun document ↦
      (sampleData.readDocument document).elim (Except.error "document") Except.ok }

theorem roundTrips_readableData : RoundTrips readableData := by
  intro document bytes hwrite
  change (sampleData.readDocument document).elim (Except.error "document") Except.ok = Except.ok bytes
    at hwrite
  cases hread : sampleData.readDocument document with
  | none =>
    rw [hread] at hwrite
    cases hwrite
  | some canonical =>
    rw [hread] at hwrite
    cases hwrite
    have hsame := hread
    simp only [sampleData] at hsame
    split_ifs at hsame
    cases hsame
    exact hread

/-- Whether a run on the small campaign ends with the locale table of a text. -/
def recordsText (text : List UInt8) (operations : List (Operation readableData)) : Bool :=
  match @CampaignDocument.opened readableData (sampleFiles [65]) with
  | .error _ => false
  | .ok document =>
    match run Recording.step (Recording.start document) operations with
    | none => false
    | some recording => decide (recording.document.canonical = sampleFiles text)

theorem undo_redo_restore_renamed : ∃ document recording,
    @CampaignDocument.opened readableData (sampleFiles [65]) = .ok document ∧
    run Recording.step (Recording.start document)
      [.apply (.setValue (.document "locale/en.json") "/strings/n" [34, 66, 34]), .undo] =
        some recording ∧
    recording.document.canonical = sampleFiles [65] ∧ recording.document.working.Consistent := by
  have hrecords : recordsText [65]
      [.apply (.setValue (.document "locale/en.json") "/strings/n" [34, 66, 34]), .undo] = true := by
    decide +kernel
  unfold recordsText at hrecords
  split at hrecords
  · cases hrecords
  · rename_i document hopened
    split at hrecords
    · cases hrecords
    · rename_i recording hrun
      exact ⟨document, recording, hopened, hrun, of_decide_eq_true hrecords,
        ((undo_redo_restore roundTrips_readableData hopened).1 _ recording hrun).2.1⟩

end Crpg.Edit
