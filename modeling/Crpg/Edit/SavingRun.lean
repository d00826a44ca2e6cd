import Crpg.Edit.Restore
import Crpg.Edit.Saving

/-!
# What a session keeps

`Tracked` is the invariant of every session: a computed plan of the present revision was computed
since the canonical files last changed, a fresh plan is the difference of its baseline and the
present canonical files, and the latest writing explains the disk. `Kept` is what an orderly session
adds: the disk is the saved baseline, or the canonical files while a writing is unmarked.

The revision saturates, and plans of two states then carry one revision; the results are about
sessions below that.
-/

set_option autoImplicit false

namespace Crpg.Edit

open Crpg.Core Crpg.Lib

variable {data : CampaignData}

/-! ### Calls -/

/-- What a call that commits a change does besides installing it. -/
structure Committed (document next : CampaignDocument data) : Prop where
  baseline : next.baseline = document.baseline
  revision : next.revision = saturatingAdd u64Max document.revision 1

/-- A call leaves the document or commits a change to it. -/
def Commits {α : Type} (document : CampaignDocument data)
    (outcome : Outcome (CampaignDocument data) (EditError data.Diagnostic) α) : Prop :=
  ∀ next, outcome.state? = some next → next = document ∨ Committed document next

theorem commits_applyBatch (document : CampaignDocument data) (commands : List (EditCommand data)) :
    Commits document (CampaignDocument.applyBatch commands document) := by
  intro next hnext
  obtain ⟨error, herror⟩ | ⟨work, -, ⟨-, hsame⟩ | ⟨-, -, receipt, -, hchanged⟩⟩ :=
    document.applyBatch_cases commands
  · rw [herror] at hnext
    cases hnext
    exact Or.inl rfl
  · rw [hsame] at hnext
    cases hnext
    exact Or.inl rfl
  · rw [hchanged] at hnext
    cases hnext
    exact Or.inr ⟨rfl, rfl⟩

theorem commits_undo (document : CampaignDocument data) :
    Commits document ((CampaignDocument.undo : CampaignDocument.Method data _) document) := by
  intro next hnext
  obtain ⟨error, herror, -⟩ | ⟨entry, restored, receipt, -, -, hchanged⟩ := document.undo_cases
  · rw [herror] at hnext
    cases hnext
    exact Or.inl rfl
  · rw [hchanged] at hnext
    cases hnext
    exact Or.inr ⟨rfl, rfl⟩

theorem commits_redo (document : CampaignDocument data) :
    Commits document ((CampaignDocument.redo : CampaignDocument.Method data _) document) := by
  intro next hnext
  obtain ⟨error, herror, -⟩ | ⟨entry, restored, receipt, -, -, hchanged⟩ := document.redo_cases
  · rw [herror] at hnext
    cases hnext
    exact Or.inl rfl
  · rw [hchanged] at hnext
    cases hnext
    exact Or.inr ⟨rfl, rfl⟩

namespace Session

theorem after_self (session : Session data) : session.after session.document = session := by
  simp only [Session.after, if_true]

variable {session next : Session data}

theorem after_cases {α : Type}
    {outcome : Outcome (CampaignDocument data) (EditError data.Diagnostic) α}
    (hcommits : Commits session.document outcome)
    (hstep : outcome.state?.map session.after = some next) : next = session ∨
      ∃ document, Committed session.document document ∧ next = session.after document := by
  obtain ⟨document, hleft, rfl⟩ := Option.map_eq_some_iff.mp hstep
  obtain hsame | hcommitted := hcommits document hleft
  · left
    rw [hsame, after_self]
  · exact Or.inr ⟨document, hcommitted, rfl⟩

/-! ### Every session -/

structure Tracked (session : Session data) : Prop where
  revision_le : session.document.revision ≤ u64Max
  plans_le : ∀ computed ∈ session.plans, computed.plan.revision ≤ session.document.revision
  current : session.document.revision < u64Max → ∀ computed ∈ session.plans,
    computed.plan.revision = session.document.revision → computed ∈ session.fresh
  fresh : ∀ computed ∈ session.fresh, ∃ origin : CampaignDocument data,
    origin.canonical = session.document.canonical ∧ origin.baseline = computed.baseline ∧
      computed.plan = origin.savePlan
  saved : ∀ computed ∈ session.fresh, session.document.baseline = computed.baseline ∨
    session.document.baseline = session.document.canonical
  written : ∀ writing ∈ session.written, writing.computed ∈ session.plans
  disk : ∀ writing, session.written.head? = some writing →
    session.disk = writing.computed.plan.applyTo writing.disk

variable {document : CampaignDocument data} {action : Action data}

theorem tracked_start (hrevision : document.revision = 0) : (start document).Tracked where
  revision_le := by
    show document.revision ≤ u64Max
    rw [hrevision]
    exact Nat.zero_le _
  plans_le := nofun
  current := nofun
  fresh := nofun
  saved := nofun
  written := nofun
  disk := nofun

theorem Tracked.committed (htracked : session.Tracked)
    (hcommitted : Committed session.document document) : (session.after document).Tracked := by
  have hrevision := hcommitted.revision
  simp only [saturatingAdd] at hrevision
  have hfresh : ∀ computed ∈ (session.after document).fresh,
      document.canonical = session.document.canonical ∧ computed ∈ session.fresh := by
    intro computed hmem
    simp only [Session.after] at hmem
    split_ifs at hmem with hsame
    · exact ⟨hsame, hmem⟩
    · cases hmem
  refine ⟨?_, fun computed hmem ↦ ?_, fun hbelow computed hmem hsame ↦ ?_, fun computed hmem ↦ ?_,
    fun computed hmem ↦ ?_, htracked.written, htracked.disk⟩
  · show document.revision ≤ u64Max
    omega
  · have hle := htracked.plans_le computed hmem
    have hcap := htracked.revision_le
    show computed.plan.revision ≤ document.revision
    omega
  · have hle := htracked.plans_le computed hmem
    simp only [Session.after] at hbelow hsame
    omega
  · obtain ⟨hsame, hold⟩ := hfresh computed hmem
    obtain ⟨origin, hcanonical, hrest⟩ := htracked.fresh computed hold
    exact ⟨origin, hcanonical.trans hsame.symm, hrest⟩
  · obtain ⟨hsame, hold⟩ := hfresh computed hmem
    simp only [Session.after, hcommitted.baseline, hsame]
    exact htracked.saved computed hold

theorem Tracked.called {α : Type} (htracked : session.Tracked)
    {outcome : Outcome (CampaignDocument data) (EditError data.Diagnostic) α}
    (hcommits : Commits session.document outcome)
    (hstep : outcome.state?.map session.after = some next) : next.Tracked := by
  obtain hsame | ⟨document, hcommitted, hnext⟩ := after_cases hcommits hstep
  · rw [hsame]
    exact htracked
  · rw [hnext]
    exact htracked.committed hcommitted

theorem mark_cases {plan : SavePlan} (hstep : session.step (.mark plan) = some next) :
    (∃ writing ∈ session.written, writing.computed.plan = plan) ∧ (next = session ∨
      plan.revision = session.document.revision ∧ next = session.marked
        { session.document with baseline := session.document.canonical }) := by
  simp only [Session.step] at hstep
  split_ifs at hstep with hwritten
  refine ⟨List.mem_map.mp hwritten, ?_⟩
  obtain ⟨-, hrefused⟩ | ⟨hrevision, haccepted⟩ := session.document.markSaved_cases plan
  · rw [hrefused] at hstep
    cases hstep
    exact Or.inl rfl
  · rw [haccepted] at hstep
    cases hstep
    exact Or.inr ⟨hrevision, rfl⟩

theorem Tracked.step (htracked : session.Tracked) (hstep : session.step action = some next) :
    next.Tracked := by
  cases action with
  | edit commands => exact htracked.called (commits_applyBatch _ _) hstep
  | undo => exact htracked.called (commits_undo _) hstep
  | redo => exact htracked.called (commits_redo _) hstep
  | plan =>
    cases hstep
    refine ⟨htracked.revision_le, fun computed hmem ↦ ?_, fun hbelow computed hmem hsame ↦ ?_,
      fun computed hmem ↦ ?_, fun computed hmem ↦ ?_,
      fun writing hmem ↦ List.mem_cons_of_mem _ (htracked.written writing hmem), htracked.disk⟩
    · obtain hnew | hold := List.mem_cons.mp hmem
      · rw [hnew]
        exact le_rfl
      · exact htracked.plans_le computed hold
    · obtain hnew | hold := List.mem_cons.mp hmem
      · rw [hnew]
        exact List.mem_cons_self ..
      · exact List.mem_cons_of_mem _ (htracked.current hbelow computed hold hsame)
    · obtain hnew | hold := List.mem_cons.mp hmem
      · rw [hnew]
        exact ⟨session.document, rfl, rfl, rfl⟩
      · exact htracked.fresh computed hold
    · obtain hnew | hold := List.mem_cons.mp hmem
      · rw [hnew]
        exact Or.inl rfl
      · exact htracked.saved computed hold
  | write computed =>
    simp only [Session.step] at hstep
    split_ifs at hstep with hplan
    cases hstep
    refine ⟨htracked.revision_le, htracked.plans_le, htracked.current, htracked.fresh,
      htracked.saved, fun writing hmem ↦ ?_, fun writing hhead ↦ ?_⟩
    · obtain hnew | hold := List.mem_cons.mp hmem
      · rw [hnew]
        exact hplan
      · exact htracked.written writing hold
    · cases hhead
      rfl
  | mark plan =>
    obtain ⟨-, hsame | ⟨-, hmarked⟩⟩ := mark_cases hstep
    · rw [hsame]
      exact htracked
    · rw [hmarked]
      exact ⟨htracked.revision_le, htracked.plans_le, htracked.current, htracked.fresh,
        fun _ _ ↦ Or.inr rfl, htracked.written, htracked.disk⟩

/-- A written plan of the present revision was computed since the canonical files last changed. -/
theorem Tracked.fresh_of_written (htracked : session.Tracked)
    (hbelow : session.document.revision < u64Max) {writing : Writing}
    (hwritten : writing ∈ session.written)
    (hrevision : writing.computed.plan.revision = session.document.revision) :
    writing.computed ∈ session.fresh :=
  htracked.current hbelow _ (htracked.written writing hwritten) hrevision

/-- After an accepted mark of the latest writing, the disk holds the canonical files exactly when
that writing found the plan's baseline at every path the plan leaves alone. -/
theorem Tracked.disk_eq_canonical_iff (htracked : session.Tracked)
    (hbelow : session.document.revision < u64Max) {writing : Writing}
    (hwritten : session.written.head? = some writing) {next : CampaignDocument data}
    (hmark : CampaignDocument.markSaved writing.computed.plan session.document = .ok () next) :
    session.disk = next.canonical ↔ ∀ path, ¬writing.computed.plan.Mentions path →
      writing.disk.get? path = writing.computed.baseline.get? path := by
  have hfresh := htracked.fresh_of_written hbelow (List.mem_of_mem_head? hwritten)
    (CampaignDocument.markSaved_eq_ok hmark).1
  obtain ⟨origin, hcanonical, hbaseline, hplan⟩ := htracked.fresh _ hfresh
  rw [htracked.disk writing hwritten, (CampaignDocument.markSaved_eq_ok hmark).2, hplan,
    ← hbaseline]
  show _ = session.document.canonical ↔ _
  rw [← hcanonical]
  exact origin.applyTo_savePlan_eq_canonical_iff writing.disk

/-! ### Orderly sessions -/

/-- What an orderly session keeps: the disk is the saved baseline, or the canonical files while the
latest writing is unmarked. -/
structure Kept (session : Session data) : Prop where
  marked : session.unmarked = false → session.disk = session.document.baseline
  unmarked : session.unmarked = true → session.disk = session.document.canonical
  settled : session.unmarked = false → ∀ writing ∈ session.written,
    writing.computed ∈ session.fresh → session.document.baseline = session.document.canonical

theorem kept_start (hopened : document.baseline = document.canonical) : (start document).Kept :=
  ⟨fun _ ↦ hopened.symm, nofun, fun _ ↦ nofun⟩

/-- A call of an orderly caller changes nothing, or changes the document when all is marked. -/
theorem Kept.called {α : Type} (hkept : session.Kept)
    {outcome : Outcome (CampaignDocument data) (EditError data.Diagnostic) α}
    (hcommits : Commits session.document outcome)
    (horderly : session.unmarked = true → outcome.state? = some session.document)
    (hstep : outcome.state?.map session.after = some next) : next.Kept := by
  by_cases hunmarked : session.unmarked = true
  · rw [horderly hunmarked, Option.map_some, after_self] at hstep
    cases hstep
    exact hkept
  · rw [Bool.not_eq_true] at hunmarked
    obtain hsame | ⟨document, hcommitted, hnext⟩ := after_cases hcommits hstep
    · rw [hsame]
      exact hkept
    · rw [hnext]
      refine ⟨fun _ ↦ ?_, fun hflag ↦ ?_, fun _ writing hwritten hfresh ↦ ?_⟩
      · exact (hkept.marked hunmarked).trans hcommitted.baseline.symm
      · exact absurd (hunmarked.symm.trans hflag) Bool.false_ne_true
      · simp only [Session.after] at hfresh
        split_ifs at hfresh with hsame
        · simp only [Session.after, hcommitted.baseline, hsame]
          exact hkept.settled hunmarked writing hwritten hfresh
        · cases hfresh

theorem Kept.applyTo (hkept : session.Kept) (htracked : session.Tracked) {computed : Computed}
    (hfresh : computed ∈ session.fresh) :
    computed.plan.applyTo session.disk = session.document.canonical := by
  obtain ⟨origin, hcanonical, hbaseline, hplan⟩ := htracked.fresh computed hfresh
  rw [hplan, ← hcanonical, origin.applyTo_savePlan_eq_canonical_iff]
  intro path hunmentioned
  rw [origin.mentions_savePlan_iff, not_not] at hunmentioned
  by_cases hunmarked : session.unmarked = true
  · rw [hkept.unmarked hunmarked, ← hcanonical, hunmentioned]
  · rw [Bool.not_eq_true] at hunmarked
    rw [hkept.marked hunmarked]
    obtain hsame | hsaved := htracked.saved computed hfresh
    · rw [hsame, hbaseline]
    · rw [hsaved, ← hcanonical, hunmentioned]

theorem Kept.step (hkept : session.Kept) (htracked : session.Tracked)
    (hbelow : session.document.revision < u64Max) (horderly : session.orderly action)
    (hstep : session.step action = some next) : next.Kept := by
  cases action with
  | edit commands => exact hkept.called (commits_applyBatch _ _) horderly hstep
  | undo => exact hkept.called (commits_undo _) horderly hstep
  | redo => exact hkept.called (commits_redo _) horderly hstep
  | plan =>
    cases hstep
    refine ⟨hkept.marked, hkept.unmarked, fun hunmarked writing hwritten hfresh ↦ ?_⟩
    obtain hnew | hold := List.mem_cons.mp hfresh
    · -- an equal plan was already written, so it carries the present revision
      apply hkept.settled hunmarked writing hwritten
      apply htracked.current hbelow _ (htracked.written writing hwritten)
      rw [hnew]
      rfl
    · exact hkept.settled hunmarked writing hwritten hold
  | write computed =>
    simp only [Session.step] at hstep
    split_ifs at hstep with hplan
    cases hstep
    exact ⟨nofun, fun _ ↦ hkept.applyTo htracked horderly, nofun⟩
  | mark plan =>
    obtain ⟨⟨writing, hwritten, hplan⟩, hsame | ⟨hrevision, hmarked⟩⟩ := mark_cases hstep
    · rw [hsame]
      exact hkept
    · rw [← hplan] at hrevision
      have hfresh := htracked.fresh_of_written hbelow hwritten hrevision
      rw [hmarked]
      refine ⟨fun _ ↦ ?_, nofun, fun _ _ _ _ ↦ rfl⟩
      show session.disk = session.document.canonical
      by_cases hunmarked : session.unmarked = true
      · exact hkept.unmarked hunmarked
      · rw [Bool.not_eq_true] at hunmarked
        rw [hkept.marked hunmarked]
        exact hkept.settled hunmarked writing hwritten hfresh

theorem revision_le_of_call {α : Type} (htracked : session.Tracked)
    {outcome : Outcome (CampaignDocument data) (EditError data.Diagnostic) α}
    (hcommits : Commits session.document outcome)
    (hstep : outcome.state?.map session.after = some next) :
    session.document.revision ≤ next.document.revision := by
  have hcap := htracked.revision_le
  obtain hsame | ⟨document, hcommitted, hnext⟩ := after_cases hcommits hstep
  · rw [hsame]
  · rw [hnext]
    show _ ≤ document.revision
    rw [hcommitted.revision, saturatingAdd]
    omega

theorem revision_le_of_step (htracked : session.Tracked) (hstep : session.step action = some next) :
    session.document.revision ≤ next.document.revision := by
  cases action with
  | edit commands => exact revision_le_of_call htracked (commits_applyBatch _ _) hstep
  | undo => exact revision_le_of_call htracked (commits_undo _) hstep
  | redo => exact revision_le_of_call htracked (commits_redo _) hstep
  | plan =>
    cases hstep
    exact le_rfl
  | write computed =>
    simp only [Session.step] at hstep
    split_ifs at hstep
    cases hstep
    exact le_rfl
  | mark plan =>
    obtain ⟨-, hsame | ⟨-, hmarked⟩⟩ := mark_cases hstep
    · rw [hsame]
    · rw [hmarked]
      exact le_rfl

end Session

theorem CampaignDocument.opened_eq_ok {documents : BTreeMap SourcePath data.Document}
    {document : CampaignDocument data} (hopened : opened documents = .ok document) :
    document.revision = 0 ∧ document.baseline = document.canonical := by
  unfold opened at hopened
  split at hopened
  · cases hopened
  · obtain ⟨canonical, -, hdocument⟩ := Result.except_bind_eq_ok hopened
    cases hdocument
    exact ⟨rfl, rfl⟩

/-- Saving. In every session, every accepted mark makes the next plan empty, and after an accepted
mark of the latest writing the disk holds the canonical files exactly when that writing found the
plan's baseline at every path the plan leaves alone. When the caller writes only plans of the
present canonical files and commits nothing between a writing and an accepted mark, the disk holds
the canonical files after every such mark. Assumes: an opened document; the statements about the
disk are below the revision at which the counter saturates. -/
theorem saves_keep_track {documents : BTreeMap SourcePath data.Document}
    {document : CampaignDocument data} (hopened : CampaignDocument.opened documents = .ok document) :
    (∀ actions session, run Session.step (Session.start document) actions = some session →
      (∀ plan next, CampaignDocument.markSaved plan session.document = .ok () next →
        next.savePlan.IsEmpty) ∧
      ∀ writing next, session.written.head? = some writing →
        CampaignDocument.markSaved writing.computed.plan session.document = .ok () next →
          session.document.revision < u64Max →
            (session.disk = next.canonical ↔ ∀ path, ¬writing.computed.plan.Mentions path →
              writing.disk.get? path = writing.computed.baseline.get? path)) ∧
    (∀ session, Reaches Session.step Session.orderly (Session.start document) session →
      ∀ writing next, session.written.head? = some writing →
        CampaignDocument.markSaved writing.computed.plan session.document = .ok () next →
          next.savePlan.IsEmpty ∧
            (session.document.revision < u64Max → session.disk = next.canonical)) := by
  obtain ⟨hrevision, hsaved⟩ := CampaignDocument.opened_eq_ok hopened
  have htracked_start := Session.tracked_start hrevision
  constructor
  · intro actions session hrun
    have htracked : session.Tracked :=
      run_preserves (fun _ _ _ htracked hstep ↦ htracked.step hstep) htracked_start hrun
    exact ⟨fun _ _ hmark ↦ CampaignDocument.savePlan_of_markSaved hmark,
      fun _ _ hwritten hmark hbelow ↦ htracked.disk_eq_canonical_iff hbelow hwritten hmark⟩
  · intro session hreaches writing next hwritten hmark
    let invariant : Session data → Prop :=
      fun state ↦ state.Tracked ∧ (state.document.revision < u64Max → state.Kept)
    have hinvariant : invariant session := by
      refine Reaches.preserves ?_ ⟨htracked_start, fun _ ↦ Session.kept_start hsaved⟩ hreaches
      rintro state action after ⟨htracked, hkept⟩ horderly hstep
      refine ⟨htracked.step hstep, fun hbelow ↦ ?_⟩
      have hbefore := (Session.revision_le_of_step htracked hstep).trans_lt hbelow
      exact (hkept hbefore).step htracked hbefore horderly hstep
    refine ⟨CampaignDocument.savePlan_of_markSaved hmark, fun hbelow ↦ ?_⟩
    obtain ⟨htracked, hkept⟩ := hinvariant
    have hfresh := htracked.fresh_of_written hbelow (List.mem_of_mem_head? hwritten)
      (CampaignDocument.markSaved_eq_ok hmark).1
    rw [(CampaignDocument.markSaved_eq_ok hmark).2]
    show session.disk = session.document.canonical
    by_cases hunmarked : session.unmarked = true
    · exact (hkept hbelow).unmarked hunmarked
    · rw [Bool.not_eq_true] at hunmarked
      rw [(hkept hbelow).marked hunmarked]
      exact (hkept hbelow).settled hunmarked writing (List.mem_of_mem_head? hwritten) hfresh

/-! ### A plan written and then refused -/

/-- The canonical manifest of a small campaign. -/
def manifestBytes : List UInt8 :=
  [123, 10, 32, 32, 34, 101, 110, 103, 105, 110, 101, 34, 58, 32, 34, 62, 61, 48, 46, 49, 46, 48,
    44, 32, 60, 49, 46, 48, 46, 48, 34, 44, 10, 32, 32, 34, 101, 110, 116, 114, 121, 34, 58, 32,
    123, 10, 32, 32, 32, 32, 34, 97, 114, 101, 97, 34, 58, 32, 34, 48, 48, 48, 48, 48, 48, 48, 48,
    48, 48, 48, 48, 48, 48, 48, 48, 48, 48, 48, 48, 48, 48, 48, 48, 48, 51, 34, 44, 10, 32, 32, 32,
    32, 34, 115, 112, 97, 119, 110, 34, 58, 32, 34, 48, 48, 48, 48, 48, 48, 48, 48, 48, 48, 48, 48,
    48, 48, 48, 48, 48, 48, 48, 48, 48, 48, 48, 48, 48, 53, 34, 44, 10, 32, 32, 32, 32, 34, 119,
    111, 114, 108, 100, 34, 58, 32, 34, 48, 48, 48, 48, 48, 48, 48, 48, 48, 48, 48, 48, 48, 48, 48,
    48, 48, 48, 48, 48, 48, 48, 48, 48, 48, 50, 34, 10, 32, 32, 125, 44, 10, 32, 32, 34, 105, 100,
    34, 58, 32, 34, 48, 48, 48, 48, 48, 48, 48, 48, 48, 48, 48, 48, 48, 48, 48, 48, 48, 48, 48, 48,
    48, 48, 48, 48, 48, 49, 34, 44, 10, 32, 32, 34, 110, 97, 109, 101, 34, 58, 32, 34, 110, 34, 44,
    10, 32, 32, 34, 112, 97, 99, 107, 97, 103, 101, 34, 58, 32, 34, 102, 105, 120, 116, 117, 114,
    101, 46, 111, 110, 101, 45, 97, 114, 101, 97, 34, 44, 10, 32, 32, 34, 114, 101, 113, 117, 105,
    114, 101, 115, 34, 58, 32, 91, 93, 44, 10, 32, 32, 34, 115, 99, 104, 101, 109, 97, 34, 58, 32,
    34, 99, 114, 112, 103, 46, 99, 97, 109, 112, 97, 105, 103, 110, 47, 49, 34, 44, 10, 32, 32, 34,
    115, 108, 117, 103, 34, 58, 32, 34, 99, 97, 109, 112, 97, 105, 103, 110, 34, 44, 10, 32, 32, 34,
    118, 101, 114, 115, 105, 111, 110, 34, 58, 32, 34, 48, 46, 49, 46, 48, 34, 10, 125, 10]

def packageLockBytes : List UInt8 :=
  [123, 10, 32, 32, 34, 97, 115, 115, 101, 116, 115, 95, 108, 111, 99, 107, 34, 58, 32, 34, 57, 53,
    55, 98, 99, 49, 51, 55, 102, 49, 97, 98, 98, 51, 99, 100, 101, 54, 99, 101, 101, 50, 55, 55,
    100, 49, 48, 99, 48, 57, 57, 98, 49, 100, 99, 100, 50, 102, 56, 56, 49, 52, 97, 53, 102, 100,
    48, 101, 50, 57, 98, 49, 100, 102, 51, 53, 48, 54, 101, 101, 52, 52, 102, 98, 34, 44, 10, 32,
    32, 34, 112, 97, 99, 107, 97, 103, 101, 115, 34, 58, 32, 91, 93, 44, 10, 32, 32, 34, 115, 99,
    104, 101, 109, 97, 34, 58, 32, 34, 99, 114, 112, 103, 46, 99, 97, 109, 112, 97, 105, 103, 110,
    45, 108, 111, 99, 107, 47, 49, 34, 10, 125, 10]

def assetsLockBytes : List UInt8 :=
  [123, 10, 32, 32, 34, 97, 115, 115, 101, 116, 115, 34, 58, 32, 123, 125, 44, 10, 32, 32, 34, 115,
    99, 104, 101, 109, 97, 34, 58, 32, 34, 99, 114, 112, 103, 46, 97, 115, 115, 101, 116, 115, 45,
    108, 111, 99, 107, 47, 49, 34, 10, 125, 10]

/-- Its locale table, with one text under the key `n`. -/
def localeBytes (text : List UInt8) : List UInt8 :=
  [123, 10, 32, 32, 34, 99, 97, 109, 112, 97, 105, 103, 110, 34, 58, 32, 34, 48, 48, 48, 48, 48, 48,
    48, 48, 48, 48, 48, 48, 48, 48, 48, 48, 48, 48, 48, 48, 48, 48, 48, 48, 48, 49, 34, 44, 10, 32,
    32, 34, 108, 111, 99, 97, 108, 101, 34, 58, 32, 34, 101, 110, 34, 44, 10, 32, 32, 34, 115, 99,
    104, 101, 109, 97, 34, 58, 32, 34, 99, 114, 112, 103, 46, 108, 111, 99, 97, 108, 101, 47, 49,
    34, 44, 10, 32, 32, 34, 115, 116, 114, 105, 110, 103, 115, 34, 58, 32, 123, 10, 32, 32, 32, 32,
    34, 110, 34, 58, 32, 34] ++ text ++
    [34, 10, 32, 32, 125, 10, 125, 10]

/-- The functions of `crpg-data` on the small campaign: a document is its canonical bytes, the one
pointer edit replaces the text `A` of the locale table by `B`, and the manifest is the only
identified object. -/
def sampleData : CampaignData where
  Document := List UInt8
  Placement := Unit
  Transform := Unit
  Diagnostic := String
  readDocument := fun bytes ↦
    if bytes ∈ [manifestBytes, packageLockBytes, assetsLockBytes, localeBytes [65],
        localeBytes [66]] then some bytes else none
  writeDocument := fun document ↦ .ok document
  campaignIndex := fun _ ↦ .ok (.ofList [(1, ⟨.campaign, "campaign.json", ""⟩)])
  editDocument := fun document edit ↦
    if document = localeBytes [65] ∧ edit = .set "/strings/n" [34, 66, 34] then
      .ok (localeBytes [66])
    else .error .notFound
  placementJson := fun _ ↦ .error "placement"
  transformJson := fun _ ↦ .error "transform"
  placementsDocument := fun _ _ ↦ []
  isLock := fun document ↦ document = packageLockBytes || document = assetsLockBytes
  invalidPath := fun path ↦ path
  validate := fun _ _ ↦ []

def sampleFiles (text : List UInt8) : Files :=
  .ofList [("campaign.json", manifestBytes), ("campaign.lock", packageLockBytes),
    ("assets/assets.lock", assetsLockBytes), ("locale/en.json", localeBytes text)]

def renameCampaign : EditCommand sampleData :=
  .setValue (.document "locale/en.json") "/strings/n" [34, 66, 34]

def editedPlan : Computed :=
  ⟨⟨1, .ofList [("locale/en.json", localeBytes [66])], []⟩, sampleFiles [65]⟩

def undonePlan : Computed := ⟨⟨2, .empty, []⟩, sampleFiles [65]⟩

/-- The edit is written, undone before the mark, refused as stale, and the next plan is written. -/
def undoneActions : List (Action sampleData) :=
  [.edit [renameCampaign], .plan, .write editedPlan, .undo, .mark editedPlan.plan, .plan,
    .write undonePlan]

def endsWith (agrees : Bool) (actions : List (Action sampleData)) : Bool :=
  match @CampaignDocument.opened sampleData (sampleFiles [65]) with
  | .error _ => false
  | .ok document =>
    match run Session.step (Session.start document) actions with
    | none => false
    | some session =>
      match session.written.head? with
      | none => false
      | some writing =>
        match CampaignDocument.markSaved writing.computed.plan session.document with
        | .ok _ next => decide (session.disk = next.canonical) == agrees
        | _ => false

theorem of_endsWith {agrees : Bool} {actions : List (Action sampleData)}
    (hends : endsWith agrees actions = true) : ∃ document session writing next,
      @CampaignDocument.opened sampleData (sampleFiles [65]) = .ok document ∧
      run Session.step (Session.start document) actions = some session ∧
      session.written.head? = some writing ∧
      CampaignDocument.markSaved writing.computed.plan session.document = .ok () next ∧
      decide (session.disk = next.canonical) = agrees := by
  unfold endsWith at hends
  split at hends
  · cases hends
  · rename_i document hopened
    split at hends
    · cases hends
    · rename_i session hrun
      split at hends
      · cases hends
      · rename_i writing hwritten
        split at hends
        · rename_i next hmark
          exact ⟨document, session, writing, next, hopened, hrun, hwritten, hmark, eq_of_beq hends⟩
        · cases hends

/-- The disk need not hold the canonical files after an accepted mark of the latest writing: a plan
that was written and refused leaves the disk off the saved baseline, and the next plan does not
mention what it left. -/
theorem undone_after_writing : ¬∀ (data : CampaignData) (documents : BTreeMap SourcePath
      data.Document) (document : CampaignDocument data),
    CampaignDocument.opened documents = .ok document → ∀ actions session,
      run Session.step (Session.start document) actions = some session →
        ∀ writing next, session.written.head? = some writing →
          CampaignDocument.markSaved writing.computed.plan session.document = .ok () next →
            session.disk = next.canonical ∧ next.savePlan.IsEmpty := by
  intro hclaim
  have hends : endsWith false undoneActions = true := by decide +kernel
  obtain ⟨document, session, writing, next, hopened, hrun, hwritten, hmark, hdisk⟩ :=
    of_endsWith hends
  rw [decide_eq_false_iff_not] at hdisk
  exact hdisk (hclaim sampleData _ document hopened _ session hrun writing next hwritten hmark).1

/-- An orderly session that writes the edit and marks it at once. -/
theorem saves_keep_track_renamed : ∃ document session writing next,
    @CampaignDocument.opened sampleData (sampleFiles [65]) = .ok document ∧
    run Session.step (Session.start document)
      [.edit [renameCampaign], .plan, .write editedPlan] = some session ∧
    Reaches Session.step Session.orderly (Session.start document) session ∧
    session.written.head? = some writing ∧
    CampaignDocument.markSaved writing.computed.plan session.document = .ok () next ∧
    next.savePlan.IsEmpty ∧ session.disk = next.canonical ∧
    ∀ path, ¬writing.computed.plan.Mentions path →
      writing.disk.get? path = writing.computed.baseline.get? path := by
  have hends : endsWith true [.edit [renameCampaign], .plan, .write editedPlan] = true := by
    decide +kernel
  obtain ⟨document, session, writing, next, hopened, hrun, hwritten, hmark, hdisk⟩ :=
    of_endsWith hends
  have htracked : session.Tracked :=
    run_preserves (fun _ _ _ htracked hstep ↦ htracked.step hstep)
      (Session.tracked_start (CampaignDocument.opened_eq_ok hopened).1) hrun
  obtain ⟨edited, hedit, hrest⟩ := run_cons_eq_some.mp hrun
  obtain ⟨planned, hplan, hrest⟩ := run_cons_eq_some.mp hrest
  obtain ⟨last, hwrite, hlast⟩ := run_cons_eq_some.mp hrest
  cases hlast
  have hshape := hwrite
  simp only [Session.step] at hshape
  split_ifs at hshape with hcomputed
  cases hshape
  cases hwritten
  have hrevision := (CampaignDocument.markSaved_eq_ok hmark).1
  have hbelow : planned.document.revision < u64Max := hrevision ▸ (by decide : 1 < u64Max)
  have hfirst : Session.orderly (Session.start document) (.edit [renameCampaign]) :=
    fun hunmarked ↦ absurd hunmarked Bool.false_ne_true
  have hidle : Session.orderly edited .plan := trivial
  have hcurrent : Session.orderly planned (.write editedPlan) :=
    htracked.current hbelow editedPlan hcomputed hrevision
  have hreaches := ((Reaches.refl.step hfirst hedit).step hidle hplan).step hcurrent hwrite
  have hsaved := (saves_keep_track hopened).1 _ _ hrun
  have hkept := (saves_keep_track hopened).2 _ hreaches _ next rfl hmark
  exact ⟨document, _, _, next, hopened, hrun, hreaches, rfl, hmark, hsaved.1 _ next hmark,
    hkept.2 hbelow, (hsaved.2 _ next rfl hmark hbelow).mp (of_decide_eq_true hdisk)⟩

end Crpg.Edit
