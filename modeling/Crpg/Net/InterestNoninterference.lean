import Crpg.Net.InterestRun
import Mathlib.Logic.Relation

/-!
# What a view does not let through

`crpg-net/src/interest.rs`. A context carries more than its viewer may see: rows of other areas or
without presence, health without a grant, a turn without a grant, an actor whose row is hidden, and
an order of the rows. `Differs` lists these differences one at a time, and two contexts are
`Indistinguishable` when a chain of such differences joins them.

`ViewerContext.disclosed` is the rest of a context, with the rows as a multiset. Indistinguishable
contexts disclose the same (`Indistinguishable.disclosed_eq`), and a projection factors through the
disclosure: the visible rows agree once ungranted health is erased (`mapValues_visibleRows_eq`), so
the keys, the minted ids, the rendered rows and the rendered turn agree. Hence accepted projections
of indistinguishable contexts answer the same and leave the same view, over whole sequences of
calls.
-/

set_option autoImplicit false

namespace Crpg.Net

open Crpg.Core Crpg.Lib

/-! ### Contexts a viewer cannot tell apart -/

/-- Whether a row is visible to the viewer of an area. -/
def EntityFact.shown (interest : Ulid) (fact : EntityFact) : Bool :=
  fact.key.area = interest && fact.fields.presence

/-- Whether an actor, if there is one, has no visible row. -/
def ViewerContext.HiddenActor (context : ViewerContext) (area : Ulid) (actor : Option EntityId) :
    Prop :=
  ∀ entity, actor = some entity →
    ∀ fact ∈ context.facts, fact.shown context.interest → fact.key ≠ ⟨area, entity⟩

/-- One difference between contexts that a viewer must not see. -/
inductive Differs : ViewerContext → ViewerContext → Prop
  | hiddenRow (context : ViewerContext) (before later : List EntityFact) (fact : EntityFact)
      (hhidden : ¬ fact.shown context.interest) :
      Differs { context with facts := before ++ later }
        { context with facts := before ++ fact :: later }
  | health (context : ViewerContext) (before later : List EntityFact) (fact : EntityFact)
      (health : Option HealthFact) (hungranted : ¬ fact.fields.health) :
      Differs { context with facts := before ++ fact :: later }
        { context with facts := before ++ { fact with health := health } :: later }
  | turn (context : ViewerContext) (turn : Option TurnState)
      (hungranted : ¬ context.turnGranted) :
      Differs context { context with turn := turn }
  | actor (context : ViewerContext) (turn : TurnState) (actor : Option EntityId)
      (hturn : context.turn = some turn) (hbefore : context.HiddenActor turn.area turn.active)
      (hafter : context.HiddenActor turn.area actor) :
      Differs context { context with turn := some { turn with active := actor } }
  | order (context : ViewerContext) (facts : List EntityFact) (hperm : context.facts.Perm facts) :
      Differs context { context with facts := facts }

/-- Contexts joined by differences a viewer must not see. -/
def Indistinguishable : ViewerContext → ViewerContext → Prop := Relation.EqvGen Differs

/-! ### What a context discloses -/

/-- A row with its health erased unless it is granted. -/
def EntityFact.conceal (fact : EntityFact) : EntityFact :=
  if fact.fields.health then fact else { fact with health := none }

/-- The part of a context its viewer may see. -/
structure Disclosed where
  epoch : SessionEpoch
  tick : ℕ
  interest : Ulid
  rows : Multiset EntityFact
  despawned : List EntityKey
  turn : Option TurnState
  turnGranted : Bool
  resendTurn : Bool

/-- A turn with its actor erased unless a visible row has it. -/
def ViewerContext.concealActor (context : ViewerContext) (turn : TurnState) : TurnState :=
  { turn with
    active := turn.active.filter fun entity ↦
      context.facts.any fun fact ↦ fact.shown context.interest && fact.key = ⟨turn.area, entity⟩ }

def ViewerContext.disclosed (context : ViewerContext) : Disclosed :=
  ⟨context.epoch, context.tick, context.interest,
    ((context.facts.filter fun fact ↦ fact.shown context.interest).map EntityFact.conceal :
      List EntityFact),
    context.despawned,
    if context.turnGranted then context.turn.map context.concealActor else none,
    context.turnGranted, context.resendTurn⟩

@[simp]
theorem EntityFact.conceal_key (fact : EntityFact) : fact.conceal.key = fact.key := by
  unfold conceal
  split_ifs <;> rfl

@[simp]
theorem EntityFact.conceal_resendHealth (fact : EntityFact) :
    fact.conceal.resendHealth = fact.resendHealth := by
  unfold conceal
  split_ifs <;> rfl

@[simp]
theorem renderedHealth_conceal (fact : EntityFact) :
    renderedHealth fact.conceal = renderedHealth fact := by
  unfold renderedHealth EntityFact.conceal
  split_ifs <;> simp_all

/-- Erasing an actor that has no visible row. -/
theorem ViewerContext.HiddenActor.conceal {context : ViewerContext} {turn : TurnState}
    (hhidden : context.HiddenActor turn.area turn.active) :
    context.concealActor turn = { turn with active := none } := by
  unfold concealActor
  congr 1
  rw [Option.filter_eq_none_iff]
  intro entity hentity
  have hrows := hhidden entity hentity
  simpa using hrows

/-- One hidden difference leaves the disclosure as it was. -/
theorem Differs.disclosed_eq {first second : ViewerContext} (hdiffers : Differs first second) :
    first.disclosed = second.disclosed := by
  cases hdiffers with
  | hiddenRow context before later fact hhidden =>
    have hactor : ViewerContext.concealActor { context with facts := before ++ later } =
        ViewerContext.concealActor { context with facts := before ++ fact :: later } := by
      funext turn
      simp [ViewerContext.concealActor, hhidden]
    simp only [ViewerContext.disclosed, hactor, List.filter_append, List.filter_cons, hhidden]
    rfl
  | health context before later fact health hungranted =>
    have hshown : EntityFact.shown context.interest { fact with health := health } =
        fact.shown context.interest := rfl
    have hconceal : EntityFact.conceal { fact with health := health } = fact.conceal := by
      simp [EntityFact.conceal, hungranted]
    have hactor : ViewerContext.concealActor { context with facts := before ++ fact :: later } =
        ViewerContext.concealActor
          { context with facts := before ++ { fact with health := health } :: later } := by
      funext turn
      simp [ViewerContext.concealActor, hshown]
    have hrows : ((before ++ fact :: later).filter fun fact ↦ fact.shown context.interest).map
          EntityFact.conceal =
        ((before ++ { fact with health := health } :: later).filter
          fun fact ↦ fact.shown context.interest).map EntityFact.conceal := by
      rw [List.filter_append, List.filter_append, List.filter_cons, List.filter_cons, hshown]
      split_ifs
      · rw [List.map_append, List.map_append, List.map_cons, List.map_cons, hconceal]
      · rfl
    simp only [ViewerContext.disclosed, hactor, hrows]
  | turn _ turn hungranted =>
    simp only [ViewerContext.disclosed, if_neg hungranted]
  | actor _ turn actor hturn hbefore hafter =>
    have hbefore' := hbefore.conceal
    have hafter' : ViewerContext.concealActor first { turn with active := actor } =
        { turn with active := none } := ViewerContext.HiddenActor.conceal hafter
    have hsame : ViewerContext.concealActor
        { first with turn := some { turn with active := actor } } = first.concealActor := rfl
    simp only [ViewerContext.disclosed, hturn, hsame, Option.map_some, hbefore', hafter']
  | order _ facts hperm =>
    have hactor : ViewerContext.concealActor { first with facts := facts } =
        first.concealActor := by
      funext turn
      simp only [ViewerContext.concealActor]
      congr 2
      funext entity
      rw [Bool.eq_iff_iff, List.any_eq_true, List.any_eq_true]
      simp only [hperm.mem_iff]
    have hrows : ((first.facts.filter fun fact ↦ fact.shown first.interest).map
        EntityFact.conceal).Perm
        ((facts.filter fun fact ↦ fact.shown first.interest).map EntityFact.conceal) :=
      (hperm.filter _).map _
    simp only [ViewerContext.disclosed, hactor, Multiset.coe_eq_coe.mpr hrows]

theorem Indistinguishable.disclosed_eq {first second : ViewerContext}
    (hsame : Indistinguishable first second) : first.disclosed = second.disclosed := by
  induction hsame with
  | rel first second hdiffers => exact hdiffers.disclosed_eq
  | refl context => rfl
  | symm first second _ ih => exact ih.symm
  | trans first second third _ _ ihfirst ihsecond => exact ihfirst.trans ihsecond

/-! ### A projection reads only the disclosure -/

namespace InterestView

theorem checkFacts_eq_ok {seen : List EntityKey} {facts : List EntityFact}
    (hchecked : checkFacts seen facts = .ok ()) :
    (facts.map EntityFact.key).Nodup ∧ ∀ fact ∈ facts, fact.key ∉ seen := by
  induction facts generalizing seen with
  | nil => simp
  | cons fact rest ih =>
    simp only [checkFacts] at hchecked
    split_ifs at hchecked with hseen
    obtain ⟨hnodup, hfresh⟩ := ih hchecked
    refine ⟨List.nodup_cons.mpr ⟨fun hmem ↦ ?_, hnodup⟩, fun other hother ↦ ?_⟩
    · obtain ⟨other, hother, hsame⟩ := List.mem_map.mp hmem
      exact hfresh other hother (hsame ▸ List.mem_cons_self ..)
    · rcases List.mem_cons.mp hother with rfl | hrest
      · exact hseen
      · exact fun hmem ↦ hfresh other hrest (List.mem_cons_of_mem _ hmem)

theorem nodup_of_validate {view : InterestView} {context : ViewerContext}
    (hvalid : view.validate context = .ok ()) : (context.facts.map EntityFact.key).Nodup := by
  unfold validate at hvalid
  split_ifs at hvalid
  exact (checkFacts_eq_ok hvalid).1

end InterestView

theorem get?_visibleRows_iff {context : ViewerContext}
    (hnodup : (context.facts.map EntityFact.key).Nodup) {key : EntityKey} {fact : EntityFact} :
    (visibleRows context).get? key = some fact ↔
      fact.key = key ∧ fact ∈ context.facts.filter fun fact ↦ fact.shown context.interest := by
  constructor
  · intro hget
    obtain ⟨row, hrow, hpair⟩ := List.mem_map.mp (BTreeMap.mem_of_get?_ofList hget)
    rw [Prod.mk.injEq] at hpair
    obtain ⟨rfl, rfl⟩ := hpair
    exact ⟨rfl, hrow⟩
  · rintro ⟨rfl, hrow⟩
    refine BTreeMap.get?_foldl_insert_of_mem _ ?_ (List.mem_map.mpr ⟨fact, hrow, rfl⟩)
    rw [List.map_map]
    exact hnodup.sublist (List.filter_sublist.map _)

/-- Contexts that disclose the same have the same visible rows, once ungranted health is erased. -/
theorem mapValues_visibleRows_eq {first second : ViewerContext}
    (hfirst : (first.facts.map EntityFact.key).Nodup)
    (hsecond : (second.facts.map EntityFact.key).Nodup)
    (hsame : first.disclosed = second.disclosed) :
    (visibleRows first).mapValues (fun _ fact ↦ fact.conceal) =
      (visibleRows second).mapValues fun _ fact ↦ fact.conceal := by
  have hrows := congrArg Disclosed.rows hsame
  simp only [ViewerContext.disclosed, Multiset.coe_eq_coe] at hrows
  have hget (context : ViewerContext) (hnodup : (context.facts.map EntityFact.key).Nodup)
      (key : EntityKey) (concealed : EntityFact) :
      ((visibleRows context).get? key).map EntityFact.conceal = some concealed ↔
        concealed.key = key ∧ concealed ∈ (context.facts.filter
          fun fact ↦ fact.shown context.interest).map EntityFact.conceal := by
    rw [Option.map_eq_some_iff, List.mem_map]
    constructor
    · rintro ⟨fact, hfact, rfl⟩
      obtain ⟨rfl, hmem⟩ := (get?_visibleRows_iff hnodup).mp hfact
      exact ⟨fact.conceal_key, fact, hmem, rfl⟩
    · rintro ⟨rfl, fact, hmem, rfl⟩
      exact ⟨fact, (get?_visibleRows_iff hnodup).mpr ⟨fact.conceal_key.symm, hmem⟩, rfl⟩
  refine BTreeMap.ext_get? fun key ↦ Option.ext fun concealed ↦ ?_
  rw [BTreeMap.get?_mapValues, BTreeMap.get?_mapValues, hget first hfirst, hget second hsecond,
    hrows.mem_iff]

section Factoring

variable {first second : BTreeMap EntityKey EntityFact}

/-- Whether a key is visible survives concealment. -/
theorem contains_eq_of_conceal (hsame : first.mapValues (fun _ fact ↦ fact.conceal) =
      second.mapValues fun _ fact ↦ fact.conceal) (key : EntityKey) :
    first.contains key = second.contains key := by
  have hget := congrArg (fun map ↦ (map.get? key).isSome) hsame
  simpa [BTreeMap.contains] using hget

theorem keys_eq_of_conceal (hsame : first.mapValues (fun _ fact ↦ fact.conceal) =
      second.mapValues fun _ fact ↦ fact.conceal) : first.keys = second.keys := by
  have hkeys := congrArg BTreeMap.keys hsame
  simpa [BTreeMap.keys, BTreeMap.mapValues, List.map_map, Function.comp_def] using hkeys

theorem identifyRows_conceal (ids : BTreeMap EntityKey NetId)
    (entries : List (EntityKey × EntityFact)) :
    identifyRows ids (entries.map fun entry ↦ (entry.1, entry.2.conceal)) =
      (identifyRows ids entries).map fun rows ↦ rows.map fun row ↦ (row.1, row.2.conceal) := by
  induction entries with
  | nil => rfl
  | cons entry rest ih =>
    obtain ⟨key, fact⟩ := entry
    rw [List.map_cons]
    simp only [identifyRows, ih]
    cases ids.get? key with
    | none => rfl
    | some net => cases identifyRows ids rest <;> rfl

theorem renderedRows_conceal (visible : BTreeMap EntityKey EntityFact)
    (ids : BTreeMap EntityKey NetId) :
    renderedRows (visible.mapValues fun _ fact ↦ fact.conceal) ids =
      (renderedRows visible ids).map fun rows ↦ rows.map fun row ↦ (row.1, row.2.conceal) := by
  have hentries : (visible.mapValues fun _ fact ↦ fact.conceal).entries =
      visible.entries.map fun entry ↦ (entry.1, entry.2.conceal) := rfl
  rw [renderedRows, renderedRows, hentries, identifyRows_conceal, Option.map_map, Option.map_map]
  congr 1
  funext rows
  simp only [Function.comp_apply, sortByNet]
  refine (List.map_mergeSort ?_).symm
  intro row _ other _
  rfl

/-- The health operations read rows only through what they render. -/
theorem filterMap_healthOp_conceal (view : InterestView) (rows : List (NetId × EntityFact)) :
    (rows.map fun row ↦ (row.1, row.2.conceal)).filterMap view.healthOp =
      rows.filterMap view.healthOp := by
  rw [List.filterMap_map]
  refine List.filterMap_congr fun row _ ↦ ?_
  simp [InterestView.healthOp]

theorem recordHealth_conceal (view : InterestView) (rows : List (NetId × EntityFact)) :
    view.recordHealth (rows.map fun row ↦ (row.1, row.2.conceal)) = view.recordHealth rows := by
  simp [InterestView.recordHealth, List.foldl_map]

theorem snapshotRows_conceal (rows : List (NetId × EntityFact)) :
    ((rows.map fun row ↦ (row.1, row.2.conceal)).map
      fun row ↦ (⟨row.1, renderedHealth row.2⟩ : SnapshotEntity)) =
      rows.map fun row ↦ ⟨row.1, renderedHealth row.2⟩ := by
  simp [List.map_map]

end Factoring

theorem renderedTurn_eq_disclosed {context : ViewerContext}
    (hnodup : (context.facts.map EntityFact.key).Nodup) (ids : BTreeMap EntityKey NetId) :
    renderedTurn context ids (visibleRows context) = context.disclosed.turn.bind fun turn ↦
        if turn.area ≠ context.disclosed.interest then none
        else some ⟨turn.active.bind fun entity ↦ ids.get? ⟨turn.area, entity⟩, turn.round⟩ := by
  have hcontains (key : EntityKey) : (visibleRows context).contains key =
      context.facts.any fun fact ↦ fact.shown context.interest && fact.key = key := by
    rw [Bool.eq_iff_iff, BTreeMap.contains, Option.isSome_iff_exists, List.any_eq_true]
    simp only [get?_visibleRows_iff hnodup, List.mem_filter, Bool.and_eq_true, decide_eq_true_eq]
    constructor
    · rintro ⟨fact, hkey, hmem, hshown⟩
      exact ⟨fact, hmem, hshown, hkey⟩
    · rintro ⟨fact, hmem, hshown, hkey⟩
      exact ⟨fact, hkey, hmem, hshown⟩
  have hactive (turn : TurnState) :
      (turn.active.bind fun entity ↦
        if (visibleRows context).contains ⟨turn.area, entity⟩ then ids.get? ⟨turn.area, entity⟩
        else none) =
      (context.concealActor turn).active.bind fun entity ↦ ids.get? ⟨turn.area, entity⟩ := by
    simp only [hcontains, ViewerContext.concealActor]
    cases turn.active with
    | none => rfl
    | some entity =>
      rw [Option.bind_some, Option.filter_some]
      split_ifs <;> rfl
  unfold renderedTurn
  simp only [hactive, ViewerContext.disclosed]
  cases context.turnGranted with
  | false => rfl
  | true =>
    cases context.turn with
    | none => rfl
    | some turn => rfl

namespace InterestView

variable {view : InterestView} {first second : ViewerContext}

/-- What the projections of two contexts that disclose the same have in common. -/
structure Matched (view : InterestView) (first second : ViewerContext) : Prop where
  entering : view.entering (visibleRows first) = view.entering (visibleRows second)
  hidden : view.hidden (visibleRows first) = view.hidden (visibleRows second)
  turn : ∀ ids, renderedTurn first ids (visibleRows first) =
    renderedTurn second ids (visibleRows second)
  rows : ∀ ids one two, renderedRows (visibleRows first) ids = some one →
    renderedRows (visibleRows second) ids = some two →
    (one.map fun row ↦ (row.1, row.2.conceal)) = two.map fun row ↦ (row.1, row.2.conceal)

theorem Matched.of_disclosed (hsame : first.disclosed = second.disclosed)
    (hfirst : view.validate first = .ok ()) (hsecond : view.validate second = .ok ()) :
    view.Matched first second := by
  have hnodup := nodup_of_validate hfirst
  have hnodup' := nodup_of_validate hsecond
  have hvisible := mapValues_visibleRows_eq hnodup hnodup' hsame
  have hcontains := contains_eq_of_conceal hvisible
  refine ⟨?_, ?_, fun ids ↦ ?_, fun ids one two hone htwo ↦ ?_⟩
  · rw [InterestView.entering, InterestView.entering, keys_eq_of_conceal hvisible]
  · simp only [InterestView.hidden, hcontains]
  · rw [renderedTurn_eq_disclosed hnodup, renderedTurn_eq_disclosed hnodup', hsame]
  · have hrows := renderedRows_conceal (visibleRows first) ids
    rw [hvisible, renderedRows_conceal, hone, htwo, Option.map_some, Option.map_some,
      Option.some.injEq] at hrows
    exact hrows.symm

theorem projectDelta_congr (hsame : first.disclosed = second.disclosed)
    {one two : StateProjection × InterestView} (hone : view.projectDelta first = some (.ok one))
    (htwo : view.projectDelta second = some (.ok two)) : one = two := by
  unfold projectDelta at hone htwo
  split at hone
  · simp at hone
  rename_i hfirst
  split at htwo
  · simp at htwo
  rename_i hsecond
  have hmatched := Matched.of_disclosed hsame hfirst hsecond
  have htick : first.tick = second.tick := congrArg Disclosed.tick hsame
  have hleave : leaveOp first = leaveOp second := by
    have hdespawned : first.despawned = second.despawned := congrArg Disclosed.despawned hsame
    funext pair
    rw [leaveOp, leaveOp, hdespawned]
  have hresend : view.turnOps first = view.turnOps second := by
    have hflag : first.resendTurn = second.resendTurn := congrArg Disclosed.resendTurn hsame
    funext turn
    simp only [turnOps, hflag]
  simp only [hmatched.entering, hmatched.hidden, hmatched.turn, htick, hleave, hresend] at hone
  split at hone
  · simp at hone
  rename_i minted nextId hmint
  simp only [hmint] at htwo
  obtain ⟨rows, hrows, hone⟩ := Option.map_eq_some_iff.mp hone
  obtain ⟨rows', hrows', htwo⟩ := Option.map_eq_some_iff.mp htwo
  have hconcealed := hmatched.rows _ rows rows' hrows hrows'
  have hhealth : rows.filterMap view.healthOp = rows'.filterMap view.healthOp := by
    rw [← filterMap_healthOp_conceal, hconcealed, filterMap_healthOp_conceal]
  have hrecord (view : InterestView) : view.recordHealth rows = view.recordHealth rows' := by
    rw [← recordHealth_conceal, hconcealed, recordHealth_conceal]
  rw [Except.ok.injEq] at hone htwo
  rw [← hone, ← htwo]
  simp only [hhealth, hrecord]

theorem projectSnapshot_congr (hsame : first.disclosed = second.disclosed)
    {one two : SnapshotProjection × InterestView}
    (hone : view.projectSnapshot first = some (.ok one))
    (htwo : view.projectSnapshot second = some (.ok two)) : one = two := by
  unfold projectSnapshot at hone htwo
  split at hone
  · simp at hone
  rename_i hfirst
  split at htwo
  · simp at htwo
  rename_i hsecond
  have hmatched := Matched.of_disclosed hsame hfirst hsecond
  have htick : first.tick = second.tick := congrArg Disclosed.tick hsame
  simp only [hmatched.entering, hmatched.hidden, hmatched.turn, htick] at hone
  split at hone
  · simp at hone
  rename_i minted nextId hmint
  simp only [hmint] at htwo
  obtain ⟨rows, hrows, hone⟩ := Option.map_eq_some_iff.mp hone
  obtain ⟨rows', hrows', htwo⟩ := Option.map_eq_some_iff.mp htwo
  have hconcealed := hmatched.rows _ rows rows' hrows hrows'
  have hbody : (rows.map fun row ↦ (⟨row.1, renderedHealth row.2⟩ : SnapshotEntity)) =
      rows'.map fun row ↦ ⟨row.1, renderedHealth row.2⟩ := by
    rw [← snapshotRows_conceal, hconcealed, snapshotRows_conceal]
  have hrecord (view : InterestView) : view.recordHealth rows = view.recordHealth rows' := by
    rw [← recordHealth_conceal, hconcealed, recordHealth_conceal]
  rw [Except.ok.injEq] at hone htwo
  rw [← hone, ← htwo]
  simp only [hbody, hrecord]

/-! ### Whole sequences of calls -/

/-- What an accepted call sends. -/
inductive Answer
  | delta (projection : StateProjection)
  | snapshot (projection : SnapshotProjection)

/-- What an accepted call sends, and the view it leaves. -/
def answer (view : InterestView) : InterestCall → Option (Answer × InterestView)
  | .projectDelta context =>
    match view.projectDelta context with
    | some (.ok (projection, next)) => some (.delta projection, next)
    | _ => none
  | .projectSnapshot context =>
    match view.projectSnapshot context with
    | some (.ok (projection, next)) => some (.snapshot projection, next)
    | _ => none

/-- What a sequence of accepted calls sends, and the view it leaves. -/
def answers (view : InterestView) : List InterestCall → Option (List Answer × InterestView)
  | [] => some ([], view)
  | request :: requests =>
    match view.answer request with
    | none => none
    | some (sent, next) => (next.answers requests).map fun rest ↦ (sent :: rest.1, rest.2)

end InterestView

/-- Calls of one kind on contexts a viewer cannot tell apart. -/
inductive InterestCall.Indistinguishable : InterestCall → InterestCall → Prop
  | projectDelta {first second : ViewerContext} (hsame : Net.Indistinguishable first second) :
      Indistinguishable (.projectDelta first) (.projectDelta second)
  | projectSnapshot {first second : ViewerContext} (hsame : Net.Indistinguishable first second) :
      Indistinguishable (.projectSnapshot first) (.projectSnapshot second)

namespace InterestView

/-- One accepted call sends what any accepted call it cannot be told from sends. -/
theorem answer_congr {view : InterestView} {one two : InterestCall}
    (hsame : one.Indistinguishable two) {first second : Answer × InterestView}
    (hfirst : view.answer one = some first) (hsecond : view.answer two = some second) :
    first = second := by
  cases hsame with
  | projectDelta hcontext =>
    simp only [answer] at hfirst hsecond
    split at hfirst
    · split at hsecond
      · rename_i hone _ _ _ htwo
        have hequal := projectDelta_congr hcontext.disclosed_eq hone htwo
        rw [Prod.mk.injEq] at hequal
        rw [← Option.some.inj hfirst, ← Option.some.inj hsecond, hequal.1, hequal.2]
      · simp at hsecond
    · simp at hfirst
  | projectSnapshot hcontext =>
    simp only [answer] at hfirst hsecond
    split at hfirst
    · split at hsecond
      · rename_i hone _ _ _ htwo
        have hequal := projectSnapshot_congr hcontext.disclosed_eq hone htwo
        rw [Prod.mk.injEq] at hequal
        rw [← Option.some.inj hfirst, ← Option.some.inj hsecond, hequal.1, hequal.2]
      · simp at hsecond
    · simp at hfirst

/-- From any view, two sequences of accepted calls that a viewer cannot tell apart, call by call,
send the same and leave the same view. -/
theorem answers_noninterference (view : InterestView) {one two : List InterestCall}
    (hsame : List.Forall₂ InterestCall.Indistinguishable one two)
    {first second : List Answer × InterestView} (hfirst : view.answers one = some first)
    (hsecond : view.answers two = some second) : first = second := by
  induction hsame generalizing view first second with
  | nil =>
    rw [answers, Option.some.injEq] at hfirst hsecond
    exact hfirst.symm.trans hsecond
  | cons hcall _ ih =>
    simp only [answers] at hfirst hsecond
    split at hfirst
    · simp at hfirst
    rename_i sent next hsent
    split at hsecond
    · simp at hsecond
    rename_i sent' next' hsent'
    have hequal := answer_congr hcall hsent hsent'
    rw [Prod.mk.injEq] at hequal
    obtain ⟨rfl, rfl⟩ := hequal
    obtain ⟨rest, hrest, rfl⟩ := Option.map_eq_some_iff.mp hfirst
    obtain ⟨rest', hrest', rfl⟩ := Option.map_eq_some_iff.mp hsecond
    rw [ih next hrest hrest']

/-- A viewer without grants for health or turns that sees one creature of its area. -/
def plainContext : ViewerContext :=
  ⟨Vector.replicate 16 7, 5, 0, [⟨⟨0, ⟨3, 1⟩⟩, ⟨true, false⟩, some ⟨9, 10, false⟩, false⟩], [],
    none, false, false⟩

/-- The same viewer, with a hidden creature before it, another health and a turn. -/
def crowdedContext : ViewerContext :=
  ⟨Vector.replicate 16 7, 5, 0,
    [⟨⟨0, ⟨4, 1⟩⟩, ⟨false, true⟩, some ⟨1, 2, false⟩, true⟩,
      ⟨⟨0, ⟨3, 1⟩⟩, ⟨true, false⟩, some ⟨2, 10, false⟩, false⟩], [],
    some ⟨0, some ⟨4, 1⟩, 3⟩, false, false⟩

/-- A delta and then a snapshot send the same for both. -/
theorem answers_noninterference_crowded : ∃ sent, (new (Vector.replicate 16 7)).answers
        [.projectDelta plainContext, .projectSnapshot plainContext] = some sent ∧
      (new (Vector.replicate 16 7)).answers
        [.projectDelta crowdedContext, .projectSnapshot crowdedContext] = some sent := by
  have hrow := Differs.hiddenRow plainContext [] plainContext.facts
    ⟨⟨0, ⟨4, 1⟩⟩, ⟨false, true⟩, some ⟨1, 2, false⟩, true⟩ (by decide)
  have hhealth := Differs.health plainContext
    [⟨⟨0, ⟨4, 1⟩⟩, ⟨false, true⟩, some ⟨1, 2, false⟩, true⟩] []
    ⟨⟨0, ⟨3, 1⟩⟩, ⟨true, false⟩, some ⟨9, 10, false⟩, false⟩ (some ⟨2, 10, false⟩) (by decide)
  have hturn := Differs.turn { crowdedContext with turn := none }
    (some ⟨0, some ⟨4, 1⟩, 3⟩) (by decide)
  have hsame : Indistinguishable plainContext crowdedContext :=
    ((Relation.EqvGen.rel _ _ hrow).trans _ _ _ (Relation.EqvGen.rel _ _ hhealth)).trans _ _ _
      (Relation.EqvGen.rel _ _ hturn)
  have hone : ((new (Vector.replicate 16 7)).answers
      [.projectDelta plainContext, .projectSnapshot plainContext]).isSome := by
    decide +kernel
  have htwo : ((new (Vector.replicate 16 7)).answers
      [.projectDelta crowdedContext, .projectSnapshot crowdedContext]).isSome := by
    decide +kernel
  obtain ⟨sent, hsent⟩ := Option.isSome_iff_exists.mp hone
  obtain ⟨sent', hsent'⟩ := Option.isSome_iff_exists.mp htwo
  have hequal := answers_noninterference (new (Vector.replicate 16 7))
    (.cons (.projectDelta hsame) (.cons (.projectSnapshot hsame) .nil)) hsent hsent'
  exact ⟨sent, hsent, hequal ▸ hsent'⟩

end InterestView

end Crpg.Net
