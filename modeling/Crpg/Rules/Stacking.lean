import Crpg.Rules.Selection

/-!
# Stacking

What a query says of the modifiers of a target. The contributions list every one of them once, in
order of application, each with the status its outcome in the selection calls for; the values before
and after the applied ones chain from the base to the value. `stacking_exact` covers both folds, and
the traces a query returns.
-/

set_option autoImplicit false

namespace Crpg.Rules

open Crpg.Core Crpg.Lib

/-! ### Statuses -/

/-- A status that reports an application. -/
def ContributionStatus.IsApplied (status : ContributionStatus) : Prop :=
  ∃ before after, status = .applied before after

/-- The applied contributions lead from one value to another, each starting where the one before it
ended. -/
def Chains (steps : StatValue → ModOp → StatValue → Prop) :
    StatValue → List Contribution → StatValue → Prop
  | value, [], final => value = final
  | value, contribution :: rest, final =>
    match contribution.status with
    | .applied before after =>
      before = value ∧ steps before contribution.modifier.op after ∧ Chains steps after rest final
    | _ => Chains steps value rest final

/-- One application, seen through the value type of a fold. -/
def StepsBy {α : Type} (wrap : α → StatValue) (apply : α → ModOp → α) (before : StatValue)
    (op : ModOp) (after : StatValue) : Prop :=
  ∃ running, before = wrap running ∧ after = wrap (apply running op)

/-- The contributions to one target, exactly. A group holds the live modifiers of one type and
phase; its policy says which of them are rivals, and by what they are ranked. -/
structure Stacked (policies : BTreeMap String StackingPolicy) (tags : TagSet)
    (targeting : List Modifier) (steps : StatValue → ModOp → StatValue → Prop)
    (base value : StatValue) (contributions : List Contribution) : Prop where
  complete : contributions.map Contribution.modifier = targeting
  ascending : targeting.Pairwise fun first second ↦ first.key < second.key
  policy : ∀ entry ∈ contributions, ∃ policy, policies.get? entry.modifier.modType = some policy
  conditionFalse : ∀ entry ∈ contributions,
    (entry.status = .conditionFalse ↔ Selection.live tags entry.modifier = false)
  zeroAdd : ∀ entry ∈ contributions, ∀ policy,
    policies.get? entry.modifier.modType = some policy →
    (entry.status = .zeroAdd ↔
      Selection.live tags entry.modifier = true ∧ AddsNothing policy entry.modifier)
  applied : ∀ entry ∈ contributions, ∀ policy,
    policies.get? entry.modifier.modType = some policy →
    (entry.status.IsApplied ↔
      Selection.live tags entry.modifier = true ∧ ¬AddsNothing policy entry.modifier ∧
        Unbeaten policy (groupOf tags targeting entry.modifier) entry.modifier)
  suppressed : ∀ entry ∈ contributions, ∀ policy,
    policies.get? entry.modifier.modType = some policy →
    ∀ winner, entry.status = .suppressed winner →
      ∃ other ∈ contributions, other.modifier.id = winner ∧ winner ≠ entry.modifier.id ∧
        other.modifier ∈ groupOf tags targeting entry.modifier ∧
        Rivals policy entry.modifier other.modifier ∧ other.status.IsApplied
  unique : ∀ entry ∈ contributions, ∀ policy,
    policies.get? entry.modifier.modType = some policy → policy ≠ .stackAll →
    Selection.live tags entry.modifier = true → ¬AddsNothing policy entry.modifier →
      ∃! other, other ∈ contributions ∧
        other.modifier ∈ groupOf tags targeting entry.modifier ∧
        Rivals policy entry.modifier other.modifier ∧ other.status.IsApplied
  chain : Chains steps base contributions value

/-! ### The fold -/

section Fold

variable {α : Type} {wrap : α → StatValue} {apply : α → ModOp → α}

def foldStep (apply : α → ModOp → α) (state : α × BTreeMap Ulid (α × α)) (modifier : Modifier) :
    α × BTreeMap Ulid (α × α) :=
  (apply state.1 modifier.op, state.2.insert modifier.id (state.1, apply state.1 modifier.op))

theorem foldRetained_eq (base : α) (order : List Modifier) :
    foldRetained apply base order = order.foldl (foldStep apply) (base, .empty) := rfl

theorem get?_foldStep_of_notMem {order : List Modifier} {state : α × BTreeMap Ulid (α × α)}
    {id : Ulid} (hid : id ∉ order.map Modifier.id) :
    (order.foldl (foldStep apply) state).2.get? id = state.2.get? id := by
  induction order generalizing state with
  | nil => rfl
  | cons modifier rest ih =>
    rw [List.map_cons, List.mem_cons, not_or] at hid
    rw [List.foldl_cons, ih hid.2]
    exact BTreeMap.get?_insert_of_ne _ hid.1 _

theorem get?_foldStep_of_mem {order : List Modifier} {state : α × BTreeMap Ulid (α × α)}
    (hnodup : (order.map Modifier.id).Nodup) {modifier : Modifier} (hmem : modifier ∈ order) :
    ∃ before after, (order.foldl (foldStep apply) state).2.get? modifier.id =
      some (before, after) := by
  induction order generalizing state with
  | nil => exact absurd hmem List.not_mem_nil
  | cons first rest ih =>
    rw [List.map_cons, List.nodup_cons] at hnodup
    rw [List.foldl_cons]
    by_cases hlater : modifier ∈ rest
    · exact ih hnodup.2 hlater
    · have heq : modifier = first := (List.mem_cons.mp hmem).resolve_right hlater
      refine ⟨state.1, apply state.1 first.op, ?_⟩
      rw [heq, get?_foldStep_of_notMem hnodup.1]
      exact BTreeMap.get?_insert_self ..

def statusOf (wrap : α → StatValue) (selection : Selection) (applied : BTreeMap Ulid (α × α))
    (modifier : Modifier) : ContributionStatus :=
  match selection.status.get? modifier.id with
  | some status => status
  | none =>
    match applied.get? modifier.id with
    | some (before, after) => .applied (wrap before) (wrap after)
    | none => .conditionFalse

theorem contributionsOf_eq (selection : Selection) (applied : BTreeMap Ulid (α × α))
    (targeting : List Modifier) : contributionsOf wrap selection applied targeting =
      targeting.map fun modifier ↦ ⟨modifier, statusOf wrap selection applied modifier⟩ := rfl

variable {selection : Selection}

theorem statusOf_recorded {applied : BTreeMap Ulid (α × α)} {modifier : Modifier}
    {status : ContributionStatus} (hstatus : selection.status.get? modifier.id = some status) :
    statusOf wrap selection applied modifier = status := by
  rw [statusOf, hstatus]

theorem statusOf_applied {applied : BTreeMap Ulid (α × α)} {modifier : Modifier}
    (hstatus : selection.status.get? modifier.id = none) {before after : α}
    (happlied : applied.get? modifier.id = some (before, after)) :
    statusOf wrap selection applied modifier = .applied (wrap before) (wrap after) := by
  rw [statusOf, hstatus, happlied]

theorem retainedOf_eq {targeting : List Modifier}
    (hsorted : targeting.Pairwise fun first second ↦ first.key ≤ second.key) :
    retainedOf selection targeting =
      targeting.filter fun modifier ↦ modifier.key ∈ selection.retained :=
  (hsorted.filter _).insertionSort_eq

/-- The reported values chain from the start of the fold to its end. Assumes: the retained
modifiers are those without a recorded status, and no recorded status reports an application. -/
theorem chains_foldl {targeting : List Modifier} (hnodup : (targeting.map Modifier.id).Nodup)
    (hretained : ∀ modifier ∈ targeting,
      (modifier.key ∈ selection.retained ↔ selection.status.get? modifier.id = none))
    (hrecorded : ∀ modifier ∈ targeting, ∀ status,
      selection.status.get? modifier.id = some status → ¬status.IsApplied)
    (state : α × BTreeMap Ulid (α × α)) : Chains (StepsBy wrap apply) (wrap state.1)
      (targeting.map fun modifier ↦ ⟨modifier, statusOf wrap selection
        ((targeting.filter fun modifier ↦ modifier.key ∈ selection.retained).foldl
          (foldStep apply) state).2 modifier⟩)
      (wrap ((targeting.filter fun modifier ↦ modifier.key ∈ selection.retained).foldl
        (foldStep apply) state).1) := by
  induction targeting generalizing state with
  | nil => rfl
  | cons modifier rest ih =>
    rw [List.map_cons, List.nodup_cons] at hnodup
    have hmem : modifier ∈ modifier :: rest := List.mem_cons_self ..
    have hrest := ih hnodup.2
      (fun other hother ↦ hretained other (List.mem_cons_of_mem _ hother))
      (fun other hother ↦ hrecorded other (List.mem_cons_of_mem _ hother))
    rw [List.map_cons]
    by_cases hkept : modifier.key ∈ selection.retained
    · rw [List.filter_cons_of_pos (by simpa using hkept), List.foldl_cons]
      have hfresh : modifier.id ∉
          (rest.filter fun modifier ↦ modifier.key ∈ selection.retained).map Modifier.id :=
        fun hid ↦ hnodup.1 ((List.filter_sublist.map _).subset hid)
      have hstatus := (hretained modifier hmem).mp hkept
      have happlied : ((rest.filter fun modifier ↦ modifier.key ∈ selection.retained).foldl
          (foldStep apply) (foldStep apply state modifier)).2.get? modifier.id =
            some (state.1, apply state.1 modifier.op) := by
        rw [get?_foldStep_of_notMem hfresh]
        exact BTreeMap.get?_insert_self ..
      simp only [Chains, statusOf_applied hstatus happlied]
      exact ⟨trivial, ⟨state.1, rfl, rfl⟩, hrest (foldStep apply state modifier)⟩
    · rw [List.filter_cons_of_neg (by simpa using hkept)]
      cases hstatus : selection.status.get? modifier.id with
      | none => exact absurd ((hretained modifier hmem).mpr hstatus) hkept
      | some status =>
        have hnot := hrecorded modifier hmem status hstatus
        simp only [Chains, statusOf_recorded hstatus]
        cases status with
        | conditionFalse => exact hrest state
        | zeroAdd => exact hrest state
        | suppressed winner => exact hrest state
        | applied before after => exact absurd ⟨before, after, rfl⟩ hnot

end Fold

/-! ### Rivals -/

section Rivals

variable {policy : StackingPolicy} {first second third : Modifier}

theorem Rivals.symm (hrivals : Rivals policy first second) : Rivals policy second first := by
  cases policy with
  | stackAll => exact hrivals
  | highestBonusWorstPenalty => exact Eq.symm hrivals
  | highestPriorityPerName => exact Eq.symm hrivals

theorem Rivals.trans (hfirst : Rivals policy first second) (hsecond : Rivals policy second third) :
    Rivals policy first third := by
  cases policy with
  | stackAll => exact hfirst
  | highestBonusWorstPenalty => exact Eq.trans hfirst hsecond
  | highestPriorityPerName => exact Eq.trans hfirst hsecond

theorem rivals_self (hpolicy : policy ≠ .stackAll) (modifier : Modifier) :
    Rivals policy modifier modifier := by
  cases policy with
  | stackAll => exact absurd rfl hpolicy
  | highestBonusWorstPenalty => rfl
  | highestPriorityPerName => rfl

theorem Rivals.addsNothing_iff (hrivals : Rivals policy first second) :
    AddsNothing policy first ↔ AddsNothing policy second := by
  unfold AddsNothing
  apply and_congr_right
  rintro rfl
  have hsign : first.added.sign = second.added.sign := hrivals
  rw [← @Int.sign_eq_zero_iff_zero first.added, hsign, Int.sign_eq_zero_iff_zero]

theorem id_eq_of_rank_eq (hrank : first.rank policy = second.rank policy) :
    first.id = second.id := by
  cases policy with
  | stackAll => exact congrArg (fun rank ↦ (ofLex (ofLex rank).2).2) hrank
  | highestBonusWorstPenalty => exact congrArg (fun rank ↦ (ofLex (ofLex rank).2).2) hrank
  | highestPriorityPerName => exact congrArg (fun rank ↦ (ofLex (ofLex rank).2).2) hrank

theorem Unbeaten.id_eq {members : List Modifier} (hfirst : Unbeaten policy members first)
    (hsecond : Unbeaten policy members second) (hmem : first ∈ members) (hmem' : second ∈ members)
    (hrivals : Rivals policy first second) : first.id = second.id := by
  apply @id_eq_of_rank_eq policy
  exact le_antisymm (hsecond first hmem hrivals.symm) (hfirst second hmem' hrivals)

theorem groupOf_eq {tags : TagSet} {targeting : List Modifier} {modifier other : Modifier}
    (hother : other ∈ groupOf tags targeting modifier) :
    groupOf tags targeting other = groupOf tags targeting modifier := by
  obtain ⟨-, -, htype, hphase⟩ := mem_groupOf.mp hother
  unfold groupOf
  rw [htype, hphase]

end Rivals

/-! ### Reports -/

inductive Report (policy : StackingPolicy) (tags : TagSet) (targeting : List Modifier)
    (modifier : Modifier) : ContributionStatus → Prop
  | excluded (hlive : Selection.live tags modifier = false) :
      Report policy tags targeting modifier .conditionFalse
  | zero (hlive : Selection.live tags modifier = true) (hzero : AddsNothing policy modifier) :
      Report policy tags targeting modifier .zeroAdd
  | wins {before after : StatValue} (hlive : Selection.live tags modifier = true)
      (hnonzero : ¬AddsNothing policy modifier)
      (hbest : Unbeaten policy (groupOf tags targeting modifier) modifier) :
      Report policy tags targeting modifier (.applied before after)
  | loses {winner : Modifier} (hlive : Selection.live tags modifier = true)
      (hnonzero : ¬AddsNothing policy modifier)
      (hbeaten : ¬Unbeaten policy (groupOf tags targeting modifier) modifier)
      (hwinner : winner ∈ groupOf tags targeting modifier)
      (hrivals : Rivals policy modifier winner) (hother : winner.id ≠ modifier.id)
      (hbest : Unbeaten policy (groupOf tags targeting winner) winner) :
      Report policy tags targeting modifier (.suppressed winner.id)

section Report

variable {policies : BTreeMap String StackingPolicy} {tags : TagSet} {targeting : List Modifier}
  {policy : StackingPolicy} {modifier : Modifier} {status : ContributionStatus}

theorem mem_groupOf_self (hmem : modifier ∈ targeting)
    (hlive : Selection.live tags modifier = true) : modifier ∈ groupOf tags targeting modifier :=
  mem_groupOf.mpr ⟨hmem, hlive, rfl, rfl⟩

namespace Report

section

variable (hreport : Report policy tags targeting modifier status)
include hreport

theorem conditionFalse_iff : status = .conditionFalse ↔ Selection.live tags modifier = false := by
  cases hreport with
  | excluded hlive => exact iff_of_true rfl hlive
  | zero hlive => exact iff_of_false nofun (by simp [hlive])
  | wins hlive => exact iff_of_false nofun (by simp [hlive])
  | loses hlive => exact iff_of_false nofun (by simp [hlive])

theorem zeroAdd_iff :
    status = .zeroAdd ↔ Selection.live tags modifier = true ∧ AddsNothing policy modifier := by
  cases hreport with
  | excluded hlive => exact iff_of_false nofun (by simp [hlive])
  | zero hlive hzero => exact iff_of_true rfl ⟨hlive, hzero⟩
  | wins _ hnonzero => exact iff_of_false nofun fun h ↦ hnonzero h.2
  | loses _ hnonzero => exact iff_of_false nofun fun h ↦ hnonzero h.2

theorem isApplied_iff :
    status.IsApplied ↔ Selection.live tags modifier = true ∧ ¬AddsNothing policy modifier ∧
      Unbeaten policy (groupOf tags targeting modifier) modifier := by
  have hnot : ∀ {other : ContributionStatus}, (∀ before after, other ≠ .applied before after) →
      ¬other.IsApplied := fun hne ⟨before, after, heq⟩ ↦ hne before after heq
  cases hreport with
  | excluded hlive => exact iff_of_false (hnot fun _ _ ↦ nofun) (by simp [hlive])
  | zero _ hzero => exact iff_of_false (hnot fun _ _ ↦ nofun) fun h ↦ h.2.1 hzero
  | wins hlive hnonzero hbest => exact iff_of_true ⟨_, _, rfl⟩ ⟨hlive, hnonzero, hbest⟩
  | loses _ _ hbeaten => exact iff_of_false (hnot fun _ _ ↦ nofun) fun h ↦ hbeaten h.2.2

theorem exists_winner (hmem : modifier ∈ targeting) (hstacks : policy ≠ .stackAll)
    (hlive : Selection.live tags modifier = true) (hnonzero : ¬AddsNothing policy modifier) :
    ∃ winner ∈ groupOf tags targeting modifier, Rivals policy modifier winner ∧
      Unbeaten policy (groupOf tags targeting winner) winner := by
  cases hreport with
  | excluded hfalse =>
    rw [hlive] at hfalse
    exact absurd hfalse (by decide)
  | zero _ hzero => exact absurd hzero hnonzero
  | wins _ _ hbest => exact ⟨_, mem_groupOf_self hmem hlive, rivals_self hstacks _, hbest⟩
  | loses _ _ _ hwinner hrivals _ hbest => exact ⟨_, hwinner, hrivals, hbest⟩

end

end Report

variable {α : Type} {wrap : α → StatValue} {applied : BTreeMap Ulid (α × α)}

/-- What a fold reports of a modifier, read off its standing. Assumes: the fold has the values
around every retained modifier on record. -/
theorem report_of_standing (hmem : modifier ∈ targeting)
    (hpolicy : policies.get? modifier.modType = some policy)
    {found : Option ContributionStatus} {selection : Selection}
    (hstanding : Standing policies tags targeting modifier found)
    (hstatus : selection.status.get? modifier.id = found) (hrecord : found = none → ∃ before after,
      applied.get? modifier.id = some (before, after)) :
    Report policy tags targeting modifier (statusOf wrap selection applied modifier) := by
  cases hstanding with
  | excluded hlive =>
    rw [statusOf_recorded hstatus]
    exact .excluded hlive
  | judged hlive hpolicy' hverdict =>
    rw [hpolicy, Option.some.injEq] at hpolicy'
    subst hpolicy'
    cases hverdict with
    | zero hzero =>
      rw [statusOf_recorded hstatus]
      exact .zero hlive hzero
    | wins hnonzero hbest =>
      obtain ⟨before, after, happlied⟩ := hrecord rfl
      rw [statusOf_applied hstatus happlied]
      exact .wins hlive hnonzero hbest
    | loses hnonzero hwinner hrivals hother hbest =>
      rw [statusOf_recorded hstatus]
      apply Report.loses hlive hnonzero ?_ hwinner hrivals hother
      · rw [groupOf_eq hwinner]
        exact hbest
      · intro hunbeaten
        exact hother (hbest.id_eq hunbeaten hwinner (mem_groupOf_self hmem hlive) hrivals.symm)

end Report

/-! ### Both folds -/

section Folds

variable {α : Type} {wrap : α → StatValue} {apply : α → ModOp → α}
  {policies : BTreeMap String StackingPolicy} {tags : TagSet} {targeting : List Modifier}

/-- A modifier a fold reports by its record: it has a status from the selection, or values around
its application. The source's fallback is for a modifier with neither. -/
def Settled (apply : α → ModOp → α) (base : α) (policies : BTreeMap String StackingPolicy)
    (tags : TagSet) (targeting : List Modifier) (modifier : Modifier) : Prop :=
  let selection := Selection.selectTargeting policies tags targeting
  (selection.status.get? modifier.id).isSome = true ∨
    ((foldRetained apply base (retainedOf selection targeting)).2.get? modifier.id).isSome = true

theorem recorded_of_retained (hnodup : (targeting.map Modifier.id).Nodup)
    (hsorted : targeting.Pairwise fun first second ↦ first.key ≤ second.key)
    {selection : Selection} {modifier : Modifier} (hmem : modifier ∈ targeting)
    (hretained : modifier.key ∈ selection.retained) (base : α) :
    ∃ before after, (foldRetained apply base (retainedOf selection targeting)).2.get? modifier.id =
      some (before, after) := by
  rw [retainedOf_eq hsorted, foldRetained_eq]
  apply get?_foldStep_of_mem (hnodup.sublist (List.filter_sublist.map _))
  rw [List.mem_filter, decide_eq_true_eq]
  exact ⟨hmem, hretained⟩

theorem settled (hfits : TargetingFits policies targeting)
    (hsorted : targeting.Pairwise fun first second ↦ first.key ≤ second.key) (base : α)
    {modifier : Modifier} (hmem : modifier ∈ targeting) :
    Settled apply base policies tags targeting modifier := by
  obtain ⟨found, -, hstatus, hretained⟩ :=
    (@Selection.judged_selectTargeting policies tags _ hfits).verdict modifier hmem
  cases found with
  | some status =>
    apply Or.inl
    rw [hstatus]
    rfl
  | none =>
    obtain ⟨before, after, hrecord⟩ := @recorded_of_retained _ apply _ hfits.nodup hsorted _ _ hmem
      (hretained.mpr rfl) base
    apply Or.inr
    rw [hrecord]
    rfl

theorem stacked_of_fits (hfits : TargetingFits policies targeting)
    (hsorted : targeting.Pairwise fun first second ↦ first.key < second.key) (base : α) :
    Stacked policies tags targeting (StepsBy wrap apply) (wrap base) (wrap (foldRetained apply base
        (retainedOf (Selection.selectTargeting policies tags targeting) targeting)).1)
      (contributionsOf wrap (Selection.selectTargeting policies tags targeting)
        (foldRetained apply base
          (retainedOf (Selection.selectTargeting policies tags targeting) targeting)).2
        targeting) := by
  have hle : targeting.Pairwise fun first second ↦ first.key ≤ second.key := hsorted.imp le_of_lt
  have hjudged := @Selection.judged_selectTargeting policies tags _ hfits
  generalize hselection : Selection.selectTargeting policies tags targeting = selection at hjudged ⊢
  generalize happlied : (foldRetained apply base (retainedOf selection targeting)).2 = applied
  have hreport : ∀ modifier ∈ targeting, ∀ policy,
      policies.get? modifier.modType = some policy →
        Report policy tags targeting modifier (statusOf wrap selection applied modifier) := by
    intro modifier hmem policy hpolicy
    obtain ⟨found, hstanding, hstatus, hretained⟩ := hjudged.verdict modifier hmem
    apply report_of_standing hmem hpolicy hstanding hstatus
    intro hnone
    rw [← happlied]
    exact recorded_of_retained hfits.nodup hle hmem (hretained.mpr hnone) base
  have hentry : ∀ entry ∈ contributionsOf wrap selection applied targeting,
      ∃ modifier ∈ targeting, entry = ⟨modifier, statusOf wrap selection applied modifier⟩ := by
    intro entry hmem
    rw [contributionsOf_eq] at hmem
    obtain ⟨modifier, hmodifier, rfl⟩ := List.mem_map.mp hmem
    exact ⟨modifier, hmodifier, rfl⟩
  have hmember : ∀ modifier ∈ targeting,
      (⟨modifier, statusOf wrap selection applied modifier⟩ : Contribution) ∈
        contributionsOf wrap selection applied targeting := by
    intro modifier hmem
    rw [contributionsOf_eq]
    exact List.mem_map_of_mem hmem
  have hwins : ∀ modifier ∈ targeting, ∀ policy, policies.get? modifier.modType = some policy →
      ∀ winner ∈ groupOf tags targeting modifier, Rivals policy modifier winner →
        ¬AddsNothing policy modifier →
        Unbeaten policy (groupOf tags targeting winner) winner →
          (statusOf wrap selection applied winner).IsApplied := by
    intro modifier hmem policy hpolicy winner hwinner hrivals hnonzero hbest
    obtain ⟨hwinner', hlive, htype, -⟩ := mem_groupOf.mp hwinner
    have hpolicy' : policies.get? winner.modType = some policy := by
      rw [htype]
      exact hpolicy
    apply (hreport winner hwinner' policy hpolicy').isApplied_iff.mpr
    exact ⟨hlive, fun hzero ↦ hnonzero (hrivals.addsNothing_iff.mpr hzero), hbest⟩
  refine
    { complete := ?_
      ascending := hsorted
      policy := ?_
      conditionFalse := ?_
      zeroAdd := ?_
      applied := ?_
      suppressed := ?_
      unique := ?_
      chain := ?_ }
  · rw [contributionsOf_eq, List.map_map, Function.comp_def, List.map_id']
  · intro entry hmem
    obtain ⟨modifier, hmodifier, rfl⟩ := hentry entry hmem
    exact hfits.policy modifier hmodifier
  · intro entry hmem
    obtain ⟨modifier, hmodifier, rfl⟩ := hentry entry hmem
    obtain ⟨policy, hpolicy⟩ := hfits.policy modifier hmodifier
    exact (hreport modifier hmodifier policy hpolicy).conditionFalse_iff
  · intro entry hmem policy hpolicy
    obtain ⟨modifier, hmodifier, rfl⟩ := hentry entry hmem
    exact (hreport modifier hmodifier policy hpolicy).zeroAdd_iff
  · intro entry hmem policy hpolicy
    obtain ⟨modifier, hmodifier, rfl⟩ := hentry entry hmem
    exact (hreport modifier hmodifier policy hpolicy).isApplied_iff
  · intro entry hmem policy hpolicy winner hsuppressed
    obtain ⟨modifier, hmodifier, rfl⟩ := hentry entry hmem
    have hfound := hreport modifier hmodifier policy hpolicy
    rw [show statusOf wrap selection applied modifier = _ from hsuppressed] at hfound
    cases hfound with
    | loses hlive hnonzero hbeaten hwinner hrivals hother hbest =>
      exact ⟨⟨_, _⟩, hmember _ (mem_groupOf.mp hwinner).1, rfl, hother, hwinner, hrivals,
        hwins modifier hmodifier policy hpolicy _ hwinner hrivals hnonzero hbest⟩
  · intro entry hmem policy hpolicy hstacks hlive hnonzero
    obtain ⟨modifier, hmodifier, rfl⟩ := hentry entry hmem
    obtain ⟨winner, hwinner, hrivals, hbest⟩ :=
      (hreport modifier hmodifier policy hpolicy).exists_winner hmodifier hstacks hlive hnonzero
    refine ⟨⟨winner, _⟩, ⟨hmember winner (mem_groupOf.mp hwinner).1, hwinner, hrivals,
      hwins modifier hmodifier policy hpolicy _ hwinner hrivals hnonzero hbest⟩, ?_⟩
    rintro entry ⟨hin, hgroup, hrivals', happlied'⟩
    obtain ⟨other, hother, rfl⟩ := hentry entry hin
    have hpolicy' : policies.get? other.modType = some policy := by
      rw [(mem_groupOf.mp hgroup).2.2.1]
      exact hpolicy
    have hbest' := ((hreport other hother policy hpolicy').isApplied_iff.mp happlied').2.2
    rw [groupOf_eq hgroup] at hbest'
    rw [groupOf_eq hwinner] at hbest
    have hid := hbest'.id_eq hbest hgroup hwinner (hrivals'.symm.trans hrivals)
    rw [eq_of_key_eq hfits.nodup hother (mem_groupOf.mp hwinner).1 hid]
  · rw [← happlied, contributionsOf_eq, foldRetained_eq, retainedOf_eq hle]
    refine chains_foldl hfits.nodup (fun modifier hmem ↦ ?_)
      (fun modifier hmem status hstatus hisApplied ↦ ?_) (base, BTreeMap.empty)
    · obtain ⟨found, -, hstatus, hretained⟩ := hjudged.verdict modifier hmem
      rw [hretained, hstatus]
    · obtain ⟨found, hstanding, hstatus', -⟩ := hjudged.verdict modifier hmem
      rw [hstatus] at hstatus'
      obtain ⟨before, after, rfl⟩ := hisApplied
      subst hstatus'
      cases hstanding with
      | judged _ _ hverdict => cases hverdict

end Folds

/-! ### Valid contexts -/

namespace ModifierPipeline

variable {pipeline : ModifierPipeline} {context : QueryContext}

theorem targetKind_root {target : ModifierTarget} {root other : String} {kind : StatKind}
    (hkind : pipeline.targetKind target root = .ok kind) :
    pipeline.targetKind target other = .ok kind := by
  cases target with
  | stat id =>
    simp only [targetKind] at hkind ⊢
    cases hdefinition : pipeline.definitions.get? id with
    | some definition =>
      rw [hdefinition] at hkind
      exact hkind
    | none =>
      rw [hdefinition] at hkind
      cases hkind
  | roll tag => exact hkind
  | dc tag => exact hkind

theorem ValidContext.targetingFits (hvalid : ValidContext pipeline context)
    (target : ModifierTarget) :
    TargetingFits pipeline.policies (targetingOf context.modifiers target) := by
  refine ⟨hvalid.nodup_targeting target, fun modifier hmem ↦ ?_, fun members hmembers ↦ ?_,
    fun modifier hmem hpolicy ↦ ?_⟩
  · obtain ⟨kind, stacking, hmodifier⟩ :=
      hvalid.validModifier (ValidContext.mem_targeting.mp hmem).1
    exact ⟨stacking, hmodifier.policy⟩
  · have hadds : ∀ modifier ∈ members, ∃ kind, pipeline.targetKind target "" = .ok kind ∧
        ((∃ amount, kind = .int ∧ modifier.op = .add (.int amount)) ∨
          ∃ amount, kind = .fixed ∧ modifier.op = .add (.fixed amount)) := by
      intro modifier hmem
      obtain ⟨hin, htarget⟩ := ValidContext.mem_targeting.mp (hmembers modifier hmem).1
      obtain ⟨kind, stacking, hmodifier⟩ := hvalid.validModifier hin
      have hstacking := hmodifier.policy
      rw [(hmembers modifier hmem).2, Option.some.injEq] at hstacking
      subst hstacking
      obtain ⟨value, hop⟩ := hmodifier.isAdd
      have hkind := hmodifier.target
      rw [htarget] at hkind
      refine ⟨kind, targetKind_root hkind, ?_⟩
      rw [hop]
      obtain ⟨amount, hint, rfl⟩ | ⟨amount, hfixed, rfl⟩ := hmodifier.add_kind hop
      · exact Or.inl ⟨amount, hint, rfl⟩
      · exact Or.inr ⟨amount, hfixed, rfl⟩
    by_cases hint : pipeline.targetKind target "" = .ok .int
    · apply Or.inl
      intro modifier hmem
      obtain ⟨kind, hkind, ⟨amount, -, hop⟩ | ⟨amount, rfl, -⟩⟩ := hadds modifier hmem
      · exact ⟨amount, hop⟩
      · rw [hint] at hkind
        cases hkind
    · apply Or.inr
      intro modifier hmem
      obtain ⟨kind, hkind, ⟨amount, rfl, -⟩ | ⟨amount, -, hop⟩⟩ := hadds modifier hmem
      · exact absurd hkind hint
      · exact ⟨amount, hop⟩
  · obtain ⟨kind, stacking, hmodifier⟩ :=
      hvalid.validModifier (ValidContext.mem_targeting.mp hmem).1
    have hstacking := hmodifier.policy
    rw [hpolicy, Option.some.injEq] at hstacking
    subst hstacking
    exact hmodifier.hasName

theorem ValidContext.ascending_targeting (hvalid : ValidContext pipeline context)
    (target : ModifierTarget) : (targetingOf context.modifiers target).Pairwise
      fun first second ↦ first.key < second.key := by
  have hsorted := pairwise_insertionSort_key Modifier.key
    (context.modifiers.filter fun modifier ↦ modifier.target = target)
  have hids := List.pairwise_map.mp (hvalid.nodup_targeting target)
  apply (hsorted.and hids).imp
  rintro first second ⟨hle, hne⟩
  exact lt_of_le_of_ne hle fun hkey ↦ hne (id_eq_of_key_eq hkey)

/-! ### Traces -/

def Folded (pipeline : ModifierPipeline) (context : QueryContext) (traces : Traces) : Prop :=
  ∀ stat trace, traces.get? stat = some trace → (trace.value, trace.contributions) =
    foldStat pipeline.policies context.tags trace.base
      (targetingOf context.modifiers (.stat stat))

theorem Folded.evalStat {fuel : ℕ} {traces : Traces} (hfolded : Folded pipeline context traces)
    {stat : StatId} {evaluated : StatValue × Traces}
    (heval : pipeline.evalStat context fuel traces stat = .ok evaluated) :
    Folded pipeline context evaluated.2 := by
  induction fuel generalizing traces stat evaluated with
  | zero => cases heval
  | succ fuel ih =>
    rw [ModifierPipeline.evalStat] at heval
    cases htrace : traces.get? stat with
    | some trace =>
      rw [htrace] at heval
      cases heval
      exact hfolded
    | none =>
      rw [htrace] at heval
      simp only [Result.bind_eq_ok_iff, Result.okOr_eq_ok_iff] at heval
      obtain ⟨definition, -, based, hbased, hevaluated⟩ := heval
      cases hevaluated
      have hbase : Folded pipeline context based.2 := by
        unfold baseOf at hbased
        cases hderived : definition.derived with
        | some expr =>
          rw [hderived] at hbased
          simp only [Result.bind_eq_ok_iff] at hbased
          obtain ⟨resolved, hresolved, value, -, hvalue⟩ := hbased
          cases hvalue
          apply Result.foldlM_preserves (motive := fun state ↦ Folded pipeline context state.2) ?_
            hfolded hresolved
          intro reference _ state next hstate hstep
          unfold resolveReference at hstep
          split_ifs at hstep with hcontains
          · cases hstep
            exact hstate
          · rw [Result.bind_eq_ok_iff] at hstep
            obtain ⟨evaluated, hevaluated, hnext⟩ := hstep
            cases hnext
            exact ih hstate hevaluated
        | none =>
          rw [hderived] at hbased
          simp only [Result.bind_eq_ok_iff] at hbased
          obtain ⟨value, -, hvalue⟩ := hbased
          cases hvalue
          exact hfolded
      intro other trace hget
      by_cases hsame : other = stat
      · rw [hsame, BTreeMap.get?_insert_self, Option.some.injEq] at hget
        rw [← hget, hsame]
      · rw [BTreeMap.get?_insert_of_ne _ hsame] at hget
        exact hbase other trace hget

end ModifierPipeline

/-! ### Exactness -/

open ModifierPipeline

/-- The contributions to every target of a valid context are exact, in both folds, for every base:
each modifier has one status, the selection keeps the unbeaten rivals of each group, and the applied
values chain from the base to the value. Neither fold reaches its fallback. The traces a query
returns are these folds. -/
theorem stacking_exact {pipeline : ModifierPipeline} {context : QueryContext}
    (hvalid : pipeline.checkContext context = .ok ()) :
    (∀ target modifier, modifier ∈ targetingOf context.modifiers target ↔
      modifier ∈ context.modifiers ∧ modifier.target = target) ∧ (∀ target base,
      let targeting := targetingOf context.modifiers target
      let folded := foldStat pipeline.policies context.tags base targeting
      Stacked pipeline.policies context.tags targeting (StepsBy id applyModifier) base folded.1
        folded.2 ∧
      ∀ modifier ∈ targeting,
        Settled applyModifier base pipeline.policies context.tags targeting modifier) ∧
    (∀ target base,
      let targeting := targetingOf context.modifiers target
      let folded := foldNumeric pipeline.policies context.tags base targeting
      Stacked pipeline.policies context.tags targeting (StepsBy .int applyNumericModifier)
        (.int base) (.int folded.1) folded.2 ∧
      ∀ modifier ∈ targeting,
        Settled applyNumericModifier base pipeline.policies context.tags targeting modifier) ∧
    (∀ entity stat answer, pipeline.query entity stat context = .ok answer →
      Folded pipeline context answer.2.traces) ∧
    ∀ entity target base answer, pipeline.queryNumeric entity target base context = .ok answer →
      (answer.2.value, answer.2.contributions) = foldNumeric pipeline.policies context.tags base
        (targetingOf context.modifiers target) := by
  have hcontext := checkContext_eq_ok_iff.mp hvalid
  refine ⟨fun _ _ ↦ ValidContext.mem_targeting, fun target base ↦ ?_, fun target base ↦ ?_,
    fun entity stat answer hquery ↦ ?_, fun entity target base answer hquery ↦ ?_⟩
  · have hsorted := hcontext.ascending_targeting target
    exact ⟨stacked_of_fits (hcontext.targetingFits target) hsorted base, fun modifier hmem ↦
      settled (hcontext.targetingFits target) (hsorted.imp le_of_lt) base hmem⟩
  · have hsorted := hcontext.ascending_targeting target
    exact ⟨stacked_of_fits (hcontext.targetingFits target) hsorted base, fun modifier hmem ↦
      settled (hcontext.targetingFits target) (hsorted.imp le_of_lt) base hmem⟩
  · simp only [query, Result.bind_ok_iff, Result.pure_eq] at hquery
    obtain ⟨_, -, _, -, _, -, evaluated, hevaluated, hanswer⟩ := hquery
    cases hanswer
    apply Folded.evalStat ?_ hevaluated
    exact fun _ _ h ↦ by cases h
  · simp only [queryNumeric, Result.bind_ok_iff, Result.pure_eq] at hquery
    obtain ⟨_, -, _, -, _, -, hanswer⟩ := hquery
    cases hanswer
    rfl

/-- A bonus or penalty to the first stat, of a type that takes the extremes. -/
def sampleBonus (id : Ulid) (amount : ℤ) (condition : Option ConditionExpr) : Modifier where
  id
  source := ⟨"effect", id⟩
  target := .stat 0
  op := .add (.int amount)
  modType := "bonus"
  name := none
  condition
  priority := 0

/-- One integer stat whose bonuses and penalties take the extremes. -/
def bonusPipeline : ModifierPipeline :=
  ⟨.ofList [(0, ⟨0, .int, none⟩)], .ofList [("bonus", .highestBonusWorstPenalty)]⟩

/-- Two equal bonuses, a penalty, a zero and a bonus under a false condition. -/
def bonusContext : QueryContext :=
  ⟨⟨0, firstGeneration⟩, .ofList [(0, .int 10)], ∅,
    [sampleBonus 1 3 none, sampleBonus 2 3 none, sampleBonus 3 (-1) none, sampleBonus 4 0 none,
      sampleBonus 5 9 (some (.hasTag 7))]⟩

/-- Of two equal bonuses the one with the greater identity counts, beside the penalty. -/
theorem stacking_exact_bonuses : (foldStat bonusPipeline.policies bonusContext.tags (.int 10)
      (targetingOf bonusContext.modifiers (.stat 0))).2.map Contribution.status =
        [.suppressed 2, .applied (.int 10) (.int 13), .applied (.int 13) (.int 12), .zeroAdd,
          .conditionFalse] ∧ ∀ modifier ∈ targetingOf bonusContext.modifiers (.stat 0),
      Settled applyModifier (.int 10) bonusPipeline.policies bonusContext.tags
        (targetingOf bonusContext.modifiers (.stat 0)) modifier := by
  constructor
  · decide +kernel
  · have hvalid : bonusPipeline.checkContext bonusContext = .ok () := by decide +kernel
    exact ((stacking_exact hvalid).2.1 (.stat 0) (.int 10)).2

end Crpg.Rules
