import Crpg.Net.Projection

/-!
# The ids of a view over a whole session

`crpg-net/src/interest.rs`. A session makes any sequence of delta and snapshot projections on its
view, accepted or refused. No call panics (`call_isSome`): every visible row has an id once the
plan is made. `Succeeds` is what one accepted call does to identity: the next id never falls, an id
the view holds afterwards was held by the same key before or is at least the old next id, and the
keys that have an id are exactly the visible ones. The ids a run issues are read off the index of
the view, call by call (`issued`); they ascend strictly, so none is ever issued twice.
-/

set_option autoImplicit false

namespace Crpg.Net

open Crpg.Core Crpg.Lib
open Option (bind_some isSome_iff_exists isSome_map)

inductive InterestCall
  | projectDelta (context : ViewerContext)
  | projectSnapshot (context : ViewerContext)

def InterestCall.context : InterestCall → ViewerContext
  | .projectDelta context => context
  | .projectSnapshot context => context

namespace InterestView

/-! ### Calls -/

/-- What a call answers, as far as the view goes: the view it commits, or why it refuses; `none` is
a panic. -/
def call (view : InterestView) : InterestCall → Option (Except InterestError InterestView)
  | .projectDelta context => (view.projectDelta context).map fun answer ↦ answer.map Prod.snd
  | .projectSnapshot context => (view.projectSnapshot context).map fun answer ↦ answer.map Prod.snd

/-- The view a call leaves: the committed one, or after a refusal the one it found. -/
def after (view : InterestView) (request : InterestCall) : Option InterestView :=
  match view.call request with
  | none => none
  | some (.error _) => some view
  | some (.ok next) => some next

/-- The ids that a call issued: those in the index after it that were not there before. -/
def issuedBy (view next : InterestView) : List NetId :=
  next.index.keys.filter fun net ↦ !view.index.contains net

/-- The ids a sequence of calls issues, in order. -/
def issued (view : InterestView) : List InterestCall → List NetId
  | [] => []
  | request :: requests =>
    match view.after request with
    | none => []
    | some next => view.issuedBy next ++ next.issued requests

/-- Whether every accepted call of a sequence shows a key. -/
def Shown (view : InterestView) (key : EntityKey) : List InterestCall → Prop
  | [] => True
  | request :: requests =>
    match view.call request with
    | none => True
    | some (.error _) => view.Shown key requests
    | some (.ok next) =>
      (visibleRows request.context).contains key ∧ next.Shown key requests

variable {view next : InterestView} {context : ViewerContext}
  {minted : List (EntityKey × NetId)} {nextId : ℕ}

/-! ### No call panics -/

theorem identifyRows_isSome {ids : BTreeMap EntityKey NetId}
    {entries : List (EntityKey × EntityFact)}
    (hids : ∀ entry ∈ entries, (ids.get? entry.1).isSome) : (identifyRows ids entries).isSome := by
  induction entries with
  | nil => rfl
  | cons entry rest ih =>
    obtain ⟨key, fact⟩ := entry
    obtain ⟨net, hnet⟩ := isSome_iff_exists.mp (hids _ (List.mem_cons_self ..))
    obtain ⟨rows, hrows⟩ := isSome_iff_exists.mp
      (ih fun entry hentry ↦ hids entry (List.mem_cons_of_mem _ hentry))
    simp [identifyRows, hnet, hrows]

theorem resolvedIds_isSome {key : EntityKey}
    (hkey : (view.netId key).isSome ∨ key ∈ minted.map Prod.fst) :
    ((view.resolvedIds minted).get? key).isSome := by
  have hbound (ids : BTreeMap EntityKey NetId)
      (hids : (ids.get? key).isSome ∨ key ∈ minted.map Prod.fst) :
      ((minted.foldl (fun ids pair ↦ ids.insert pair.1 pair.2) ids).get? key).isSome := by
    clear hkey
    induction minted generalizing ids with
    | nil => simpa using hids
    | cons pair rest ih =>
      refine ih _ ?_
      rw [BTreeMap.get?_insert]
      split_ifs with hsame
      · exact Or.inl rfl
      · rw [List.map_cons, List.mem_cons] at hids
        rcases hids with hids | hhead | hrest
        · exact Or.inl hids
        · exact absurd hhead hsame
        · exact Or.inr hrest
  refine hbound _ (hkey.imp_left fun hlive ↦ ?_)
  rw [BTreeMap.get?_mapValues]
  exact hlive

theorem renderedRows_isSome
    (hmint : view.planMint (view.entering (visibleRows context)) = .ok (minted, nextId)) :
    (renderedRows (visibleRows context) (view.resolvedIds minted)).isSome := by
  unfold planMint at hmint
  split_ifs at hmint
  have hkeys := (mint_spec hmint).1
  rw [renderedRows, isSome_map]
  refine identifyRows_isSome fun entry hentry ↦ resolvedIds_isSome ?_
  rw [hkeys, mem_entering, (BTreeMap.mem_entries_iff _).mp hentry]
  cases view.netId entry.1 with
  | none => simp
  | some net => simp

/-- A call answers: it never panics. -/
theorem call_isSome (view : InterestView) (request : InterestCall) :
    (view.call request).isSome := by
  cases request with
  | projectDelta context =>
    simp only [call, isSome_map, projectDelta]
    split
    · rfl
    · split
      · rfl
      · rename_i hmint
        rw [isSome_map]
        exact renderedRows_isSome hmint
  | projectSnapshot context =>
    simp only [call, isSome_map, projectSnapshot]
    split
    · rfl
    · split
      · rfl
      · rename_i hmint
        rw [isSome_map]
        exact renderedRows_isSome hmint

/-! ### One call -/

/-- What one accepted call does to identity. -/
structure Succeeds (view : InterestView) (request : InterestCall) (next : InterestView) :
    Prop where
  coherent : next.Coherent
  nextId : view.nextId ≤ next.nextId
  held : ∀ key net, next.netId key = some net →
    view.netId key = some net ∨ view.nextId ≤ (net : ℕ)
  kept : ∀ key net, view.netId key = some net → (visibleRows request.context).contains key →
    next.netId key = some net
  visible : ∀ key, (next.netId key).isSome ↔ (visibleRows request.context).contains key

variable {request : InterestCall}

theorem Succeeds.of_settled {rows : List (NetId × EntityFact)}
    (hplan : view.Planned request.context minted nextId rows)
    (hsettled : Settled view request.context minted nextId rows next) :
    view.Succeeds request next := by
  refine ⟨hsettled.coherent, ?_, fun key net hnet ↦ ?_, fun key net hnet hvisible ↦ ?_,
    fun key ↦ ⟨fun hlive ↦ ?_, fun hvisible ↦ ?_⟩⟩
  · rw [hsettled.nextId, hplan.nextId_eq]
    exact Nat.le_add_right _ _
  · obtain ⟨fact, hrow, rfl⟩ := (hsettled.netId_iff key net).mp hnet
    exact ((hplan.resolved _ _).mp ((hplan.mem_rows _ _).mp hrow).2).imp_right
      fun hmem ↦ (hplan.bounds hmem).1
  · obtain ⟨fact, hfact⟩ := isSome_iff_exists.mp hvisible
    obtain ⟨rfl, -⟩ := visibleRows_spec hfact
    have hid := (hplan.resolved fact.key net).mpr (Or.inl hnet)
    exact (hsettled.netId_iff _ _).mpr ⟨fact, (hplan.mem_rows _ _).mpr ⟨hfact, hid⟩, rfl⟩
  · obtain ⟨net, hnet⟩ := isSome_iff_exists.mp hlive
    obtain ⟨fact, hrow, rfl⟩ := (hsettled.netId_iff key net).mp hnet
    exact isSome_iff_exists.mpr ⟨fact, ((hplan.mem_rows _ _).mp hrow).1⟩
  · obtain ⟨net, hid⟩ := hplan.resolved_visible hvisible
    obtain ⟨fact, hfact⟩ := isSome_iff_exists.mp hvisible
    obtain ⟨rfl, -⟩ := visibleRows_spec hfact
    refine isSome_iff_exists.mpr ⟨net, (hsettled.netId_iff _ _).mpr ⟨fact, ?_, rfl⟩⟩
    exact (hplan.mem_rows _ _).mpr ⟨hfact, hid⟩

theorem Coherent.succeeds (hview : view.Coherent) (hcall : view.call request = some (.ok next)) :
    view.Succeeds request next := by
  cases request with
  | projectDelta context =>
    obtain ⟨answer, hanswer, hnext⟩ := Option.map_eq_some_iff.mp hcall
    cases answer with
    | error refusal => simp [Except.map] at hnext
    | ok answered =>
      obtain ⟨projection, settled⟩ := answered
      rw [Except.map, Except.ok.injEq] at hnext
      obtain ⟨_, _, _, hplan, hsettled, -⟩ := projectDelta_ok hview hanswer
      exact hnext ▸ Succeeds.of_settled hplan hsettled
  | projectSnapshot context =>
    obtain ⟨answer, hanswer, hnext⟩ := Option.map_eq_some_iff.mp hcall
    cases answer with
    | error refusal => simp [Except.map] at hnext
    | ok answered =>
      obtain ⟨projection, settled⟩ := answered
      rw [Except.map, Except.ok.injEq] at hnext
      obtain ⟨_, _, _, hplan, hsettled, -⟩ := projectSnapshot_ok hview hanswer
      exact hnext ▸ Succeeds.of_settled hplan hsettled

theorem Coherent.after_cases (hview : view.Coherent) (hafter : view.after request = some next) :
    (∃ refusal, view.call request = some (.error refusal) ∧ next = view) ∨
      (view.call request = some (.ok next) ∧ view.Succeeds request next) := by
  unfold after at hafter
  cases hcall : view.call request with
  | none => simp [hcall] at hafter
  | some answer =>
    cases answer with
    | error refusal =>
      rw [hcall, Option.some.injEq] at hafter
      exact Or.inl ⟨refusal, rfl, hafter.symm⟩
    | ok settled =>
      rw [hcall, Option.some.injEq] at hafter
      subst hafter
      exact Or.inr ⟨rfl, hview.succeeds hcall⟩

theorem Coherent.after (hview : view.Coherent) (hafter : view.after request = some next) :
    next.Coherent := by
  rcases hview.after_cases hafter with ⟨_, -, rfl⟩ | ⟨-, hsucceeds⟩
  · exact hview
  · exact hsucceeds.coherent

/-! ### Whole runs -/

/-- A later view after an earlier one: the next id has not fallen, and an id held later was held by
the same key or is new. -/
structure Follows (earlier later : InterestView) : Prop where
  nextId : earlier.nextId ≤ later.nextId
  held : ∀ key net, later.netId key = some net →
    earlier.netId key = some net ∨ earlier.nextId ≤ (net : ℕ)

theorem Coherent.run (hview : view.Coherent) (requests : List InterestCall) :
    ∃ final, Lib.run InterestView.after view requests = some final ∧ final.Coherent ∧
      view.Follows final := by
  induction requests generalizing view with
  | nil => exact ⟨view, rfl, hview, le_refl _, fun _ _ hnet ↦ Or.inl hnet⟩
  | cons request requests ih =>
    obtain ⟨answer, hanswer⟩ := isSome_iff_exists.mp (view.call_isSome request)
    have hreturns : ∃ first, view.after request = some first := by
      unfold InterestView.after
      rw [hanswer]
      cases answer with
      | error refusal => exact ⟨view, rfl⟩
      | ok first => exact ⟨first, rfl⟩
    obtain ⟨first, hfirst⟩ := hreturns
    obtain ⟨final, hrun, hfinal, hfollows⟩ := ih (hview.after hfirst)
    refine ⟨final, run_cons_eq_some.mpr ⟨first, hfirst, hrun⟩, hfinal, ?_⟩
    rcases hview.after_cases hfirst with ⟨_, -, rfl⟩ | ⟨-, hsucceeds⟩
    · exact hfollows
    · refine ⟨hsucceeds.nextId.trans hfollows.nextId, fun key net hnet ↦ ?_⟩
      rcases hfollows.held key net hnet with hheld | hnew
      · exact hsucceeds.held key net hheld
      · exact Or.inr (hsucceeds.nextId.trans hnew)

theorem Coherent.issuedBy (hview : view.Coherent) (hafter : view.after request = some next) :
    (view.issuedBy next).Pairwise (· < ·) ∧
      ∀ net ∈ view.issuedBy next, view.nextId ≤ (net : ℕ) ∧ (net : ℕ) < next.nextId := by
  refine ⟨next.index.pairwise_keys.filter _, fun net hnet ↦ ?_⟩
  obtain ⟨hkey, hfresh⟩ := List.mem_filter.mp hnet
  obtain ⟨key, hkey⟩ := (BTreeMap.mem_keys_iff _).mp hkey
  have hcoherent := hview.after hafter
  have hid := (hcoherent.inverse net key).mp hkey
  refine ⟨?_, hcoherent.minted net key hid⟩
  have hnew : view.netId key ≠ some net := fun hold ↦ by
    rw [BTreeMap.contains, (hview.inverse net key).mpr hold] at hfresh
    simp at hfresh
  rcases hview.after_cases hafter with ⟨_, -, rfl⟩ | ⟨-, hsucceeds⟩
  · exact absurd hid hnew
  · exact (hsucceeds.held key net hid).resolve_left hnew

/-- The ids a run issues ascend strictly, and all are new. -/
theorem Coherent.issued (hview : view.Coherent) (requests : List InterestCall) :
    (view.issued requests).Pairwise (· < ·) ∧
      ∀ net ∈ view.issued requests, view.nextId ≤ (net : ℕ) := by
  induction requests generalizing view with
  | nil => simp [InterestView.issued]
  | cons request requests ih =>
    simp only [InterestView.issued]
    split
    · simp
    · rename_i first hfirst
      obtain ⟨hascending, hbounds⟩ := hview.issuedBy hfirst
      obtain ⟨hlater, hfloor⟩ := ih (hview.after hfirst)
      have hnextId : view.nextId ≤ first.nextId := by
        rcases hview.after_cases hfirst with ⟨_, -, rfl⟩ | ⟨-, hsucceeds⟩
        · exact le_refl _
        · exact hsucceeds.nextId
      refine ⟨List.pairwise_append.mpr ⟨hascending, hlater, fun net hnet other hother ↦ ?_⟩,
        fun net hnet ↦ ?_⟩
      · exact PNat.coe_lt_coe _ _ |>.mp ((hbounds net hnet).2.trans_le (hfloor other hother))
      · rcases List.mem_append.mp hnet with hnow | hthen
        · exact (hbounds net hnow).1
        · exact hnextId.trans (hfloor net hthen)

/-- Over a run a key keeps its id exactly if every accepted call shows it. -/
theorem Coherent.kept_iff (hview : view.Coherent) {requests : List InterestCall}
    {final : InterestView} (hrun : Lib.run InterestView.after view requests = some final)
    {key : EntityKey} {net : NetId} (hnet : view.netId key = some net) :
    final.netId key = some net ↔ view.Shown key requests := by
  induction requests generalizing view with
  | nil =>
    rw [run_nil, Option.some.injEq] at hrun
    simp [Shown, ← hrun, hnet]
  | cons request requests ih =>
    obtain ⟨first, hfirst, hrest⟩ := run_cons_eq_some.mp hrun
    rcases hview.after_cases hfirst with ⟨refusal, hcall, rfl⟩ | ⟨hcall, hsucceeds⟩
    · simp only [Shown, hcall]
      exact ih hview hrest hnet
    · simp only [Shown, hcall]
      by_cases hvisible : (visibleRows request.context).contains key
      · rw [ih hsucceeds.coherent hrest (hsucceeds.kept key net hnet hvisible)]
        simp [hvisible]
      · -- The key lost its id here, and any id it gets later is at least the next one.
        have hlost : first.netId key = none := by
          rw [← Option.not_isSome_iff_eq_none, hsucceeds.visible]
          exact hvisible
        obtain ⟨found, hfound, -, hfollows⟩ := hsucceeds.coherent.run requests
        rw [hrest, Option.some.injEq] at hfound
        subst hfound
        have hbelow := (hview.minted net key hnet).trans_le hsucceeds.nextId
        simp only [hvisible, false_and, iff_false, Bool.false_eq_true]
        intro hback
        rcases hfollows.held key net hback with hheld | hnew
        · simp [hlost] at hheld
        · exact absurd hnew (not_le.mpr hbelow)

theorem Coherent.held_or_issued (hview : view.Coherent) {requests : List InterestCall}
    {final : InterestView} (hrun : Lib.run InterestView.after view requests = some final)
    {key : EntityKey} {net : NetId} (hnet : final.netId key = some net) :
    (view.index.get? net).isSome ∨ net ∈ view.issued requests := by
  induction requests generalizing view with
  | nil =>
    rw [run_nil, Option.some.injEq] at hrun
    subst hrun
    rw [(hview.inverse net key).mpr hnet]
    exact Or.inl rfl
  | cons request requests ih =>
    obtain ⟨first, hfirst, hrest⟩ := run_cons_eq_some.mp hrun
    simp only [InterestView.issued, hfirst, List.mem_append]
    rcases ih (hview.after hfirst) hrest with hheld | hissued
    · by_cases hold : (view.index.get? net).isSome
      · exact Or.inl hold
      · refine Or.inr (Or.inl (List.mem_filter.mpr ⟨?_, ?_⟩))
        · exact (BTreeMap.mem_keys_iff _).mpr (isSome_iff_exists.mp hheld)
        · rw [BTreeMap.contains, Bool.not_eq_true', Bool.eq_false_iff]
          exact hold
    · exact Or.inr (Or.inr hissued)

/-- What identity means over a sequence of calls that ends in a view. -/
structure Identified (epoch : SessionEpoch) (requests : List InterestCall) (view : InterestView) :
    Prop where
  /-- The live map and the index invert each other. -/
  inverse : ∀ net key, view.index.get? net = some key ↔ view.netId key = some net
  /-- Ids are issued strictly ascending, so none twice. -/
  issued : ((new epoch).issued requests).Pairwise (· < ·)
  /-- Every live id was issued. -/
  minted : ∀ key net, view.netId key = some net → net ∈ (new epoch).issued requests
  /-- An entity has kept the id it had at an earlier point exactly if every accepted call since
  shows it. -/
  kept : ∀ before between earlier, requests = before ++ between →
    Lib.run InterestView.after (new epoch) before = some earlier →
    ∀ key net, earlier.netId key = some net →
      (view.netId key = some net ↔ earlier.Shown key between)
  /-- After an accepted call the entities with an id are the visible ones. -/
  visible : ∀ request next, view.call request = some (.ok next) → ∀ key,
    (next.netId key).isSome ↔ (visibleRows request.context).contains key
  /-- A refused call leaves the view as it was. -/
  refused : ∀ request refusal, view.call request = some (.error refusal) →
    Lib.run InterestView.after (new epoch) (requests ++ [request]) = some view

/-- Every sequence of projections on a fresh view, accepted and refused, returns, and keeps the
identity of what it shows. -/
theorem identified_of_calls (epoch : SessionEpoch) (requests : List InterestCall) :
    ∃ view, Lib.run InterestView.after (new epoch) requests = some view ∧
      Identified epoch requests view := by
  have hnew := coherent_new epoch
  obtain ⟨view, hrun, hview, -⟩ := hnew.run requests
  refine ⟨view, hrun, hview.inverse, (hnew.issued requests).1, fun key net hnet ↦ ?_, ?_,
    fun request next hcall ↦ (hview.succeeds hcall).visible, fun request refusal hcall ↦ ?_⟩
  · rcases hnew.held_or_issued hrun hnet with hheld | hissued
    · simp [new] at hheld
    · exact hissued
  · intro before between earlier hsplit hbefore key net hnet
    obtain ⟨middle, hmiddle, hcoherent, -⟩ := hnew.run before
    rw [hbefore, Option.some.injEq] at hmiddle
    subst hmiddle
    rw [hsplit, run_append, hbefore, bind_some] at hrun
    exact hcoherent.kept_iff hrun hnet
  · rw [run_append, hrun, bind_some, Lib.run, InterestView.after, hcall]
    rfl

end InterestView

end Crpg.Net
