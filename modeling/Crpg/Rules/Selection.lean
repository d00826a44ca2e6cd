import Crpg.Lib.Collect
import Crpg.Rules.Validity

/-!
# Selection

What the selection of modifiers decides. The live modifiers of one target form groups by type and
phase. Within a group the policy says who competes with whom (`Rivals`) and by what they are ranked
(`Modifier.rank`): additions of one sign by their size, modifiers of one name by priority. A
`Verdict` is the declarative answer for one member: a zero addition, a winner no rival outranks, or
a loser suppressed by such a winner.

A step of the selection `Judges` some modifiers when it gives each a verdict and leaves the others
as they are; steps that judge different modifiers compose. `judges_selectGroup` is the rule for one
group, `judged_selectTargeting` the result for a whole target.
-/

set_option autoImplicit false

namespace Crpg.Rules

open Crpg.Core Crpg.Lib
open List (foldl_cons map_cons mem_append mem_cons mem_cons_self mem_filter mem_flatMap mem_map
  mem_map_of_mem)

/-! ### Verdicts -/

def Amount.raw : Amount → ℤ
  | .int value => value
  | .fixed value => value.raw

def Modifier.amount (modifier : Modifier) : Amount :=
  match modifier.op with
  | .add value => (addAmount value).getD (.int 0)
  | _ => .int 0

def Modifier.added (modifier : Modifier) : ℤ := modifier.amount.raw

/-- What rivals are ranked by: the size of the addition where the policy compares additions, then
priority and identity. -/
def Modifier.rank (policy : StackingPolicy) (modifier : Modifier) : ℕ ×ₗ ℤ ×ₗ Ulid :=
  match policy with
  | .highestBonusWorstPenalty =>
    toLex (modifier.added.natAbs, toLex (modifier.priority, modifier.id))
  | .stackAll | .highestPriorityPerName => toLex (0, toLex (modifier.priority, modifier.id))

/-- Which members of one group compete. -/
def Rivals (policy : StackingPolicy) (first second : Modifier) : Prop :=
  match policy with
  | .stackAll => False
  | .highestBonusWorstPenalty => first.added.sign = second.added.sign
  | .highestPriorityPerName => first.name = second.name

def AddsNothing (policy : StackingPolicy) (modifier : Modifier) : Prop :=
  policy = .highestBonusWorstPenalty ∧ modifier.added = 0

def Unbeaten (policy : StackingPolicy) (members : List Modifier) (modifier : Modifier) : Prop :=
  ∀ other ∈ members, Rivals policy modifier other → other.rank policy ≤ modifier.rank policy

/-- What becomes of a member of a group: `none` is retained. -/
inductive Verdict (policy : StackingPolicy) (members : List Modifier) (modifier : Modifier) :
    Option ContributionStatus → Prop
  | zero (hzero : AddsNothing policy modifier) : Verdict policy members modifier (some .zeroAdd)
  | wins (hnonzero : ¬AddsNothing policy modifier) (hbest : Unbeaten policy members modifier) :
      Verdict policy members modifier none
  | loses {winner : Modifier} (hnonzero : ¬AddsNothing policy modifier)
      (hwinner : winner ∈ members) (hrivals : Rivals policy modifier winner)
      (hother : winner.id ≠ modifier.id) (hbest : Unbeaten policy members winner) :
      Verdict policy members modifier (some (.suppressed winner.id))

/-! ### Judging -/

structure Judged (verdict : Modifier → Option ContributionStatus → Prop) (part : List Modifier)
    (before after : Selection) : Prop where
  verdict : ∀ modifier ∈ part, ∃ found, verdict modifier found ∧
    after.status.get? modifier.id = found ∧ (modifier.key ∈ after.retained ↔ found = none)
  status : ∀ id, id ∉ part.map Modifier.id → after.status.get? id = before.status.get? id
  retained : ∀ key, key ∉ part.map Modifier.key →
    (key ∈ after.retained ↔ key ∈ before.retained)

def Unseen (part : List Modifier) (selection : Selection) : Prop :=
  ∀ modifier ∈ part, selection.status.get? modifier.id = none ∧
    modifier.key ∉ selection.retained

def Judges (verdict : Modifier → Option ContributionStatus → Prop) (part : List Modifier)
    (step : Selection → Selection) : Prop :=
  ∀ before, Unseen part before → Judged verdict part before (step before)

/-- Two parts without a common identity. -/
def Apart (first second : List Modifier) : Prop :=
  ∀ modifier ∈ first, ∀ other ∈ second, modifier.id ≠ other.id

theorem id_eq_of_key_eq {first second : Modifier} (hkey : first.key = second.key) :
    first.id = second.id := by
  have hid := congrArg (fun key : ModKey ↦ (ofLex (ofLex key).2).2) hkey
  exact hid

theorem Apart.key_notMem {first second : List Modifier} (hapart : Apart first second)
    {modifier : Modifier} (hmodifier : modifier ∈ first) :
    modifier.key ∉ second.map Modifier.key := by
  intro hkey
  obtain ⟨other, hother, hsame⟩ := mem_map.mp hkey
  exact hapart modifier hmodifier other hother (id_eq_of_key_eq hsame).symm

theorem Apart.id_notMem {first second : List Modifier} (hapart : Apart first second)
    {modifier : Modifier} (hmodifier : modifier ∈ first) :
    modifier.id ∉ second.map Modifier.id := by
  intro hid
  obtain ⟨other, hother, hsame⟩ := mem_map.mp hid
  exact hapart modifier hmodifier other hother hsame.symm

theorem Apart.symm {first second : List Modifier} (hapart : Apart first second) :
    Apart second first :=
  fun modifier hmodifier other hother heq ↦ hapart other hother modifier hmodifier heq.symm

namespace Judges

variable {verdict : Modifier → Option ContributionStatus → Prop} {part rest : List Modifier}
  {step next : Selection → Selection}

theorem nil : Judges verdict [] id :=
  fun _ _ ↦ ⟨fun _ hmem ↦ absurd hmem List.not_mem_nil, fun _ _ ↦ rfl, fun _ _ ↦ Iff.rfl⟩

theorem comp (hstep : Judges verdict part step) (hnext : Judges verdict rest next)
    (hapart : Apart part rest) : Judges verdict (part ++ rest) (next ∘ step) := by
  intro before hunseen
  have hfirst := hstep before fun modifier hmem ↦ hunseen modifier (List.mem_append_left _ hmem)
  have hunseen' : Unseen rest (step before) := by
    intro modifier hmem
    have hnot := hunseen modifier (List.mem_append_right _ hmem)
    rw [hfirst.status _ (hapart.symm.id_notMem hmem),
      hfirst.retained _ (hapart.symm.key_notMem hmem)]
    exact hnot
  have hsecond := hnext (step before) hunseen'
  refine ⟨fun modifier hmem ↦ ?_, fun id hid ↦ ?_, fun key hkey ↦ ?_⟩
  · rw [mem_append] at hmem
    by_cases hpart : modifier ∈ part
    · obtain ⟨found, hverdict, hstatus, hretained⟩ := hfirst.verdict modifier hpart
      refine ⟨found, hverdict, ?_, ?_⟩
      · rw [Function.comp, hsecond.status _ (hapart.id_notMem hpart), hstatus]
      · rw [Function.comp, hsecond.retained _ (hapart.key_notMem hpart), hretained]
    · exact hsecond.verdict modifier (hmem.resolve_left hpart)
  · rw [List.map_append, mem_append, not_or] at hid
    rw [Function.comp, hsecond.status _ hid.2, hfirst.status _ hid.1]
  · rw [List.map_append, mem_append, not_or] at hkey
    rw [Function.comp, hsecond.retained _ hkey.2, hfirst.retained _ hkey.1]

theorem of_mem_iff (hstep : Judges verdict part step)
    (hsame : ∀ modifier, modifier ∈ rest ↔ modifier ∈ part) : Judges verdict rest step := by
  intro before hunseen
  have hjudged := hstep before fun modifier hmem ↦ hunseen modifier ((hsame modifier).mpr hmem)
  have hmap : ∀ {α : Type} (field : Modifier → α) (value : α), value ∉ rest.map field →
      value ∉ part.map field := by
    intro α field value hvalue hmem
    obtain ⟨modifier, hpart, rfl⟩ := mem_map.mp hmem
    exact hvalue (mem_map_of_mem ((hsame modifier).mpr hpart))
  exact ⟨fun modifier hmem ↦ hjudged.verdict modifier ((hsame modifier).mp hmem),
    fun id hid ↦ hjudged.status id (hmap Modifier.id id hid),
    fun key hkey ↦ hjudged.retained key (hmap Modifier.key key hkey)⟩

/-- A verdict may be replaced by one it implies. -/
theorem imp {other : Modifier → Option ContributionStatus → Prop} (hstep : Judges verdict part step)
    (himp : ∀ modifier ∈ part, ∀ found, verdict modifier found → other modifier found) :
    Judges other part step := by
  intro before hunseen
  have hjudged := hstep before hunseen
  refine ⟨fun modifier hmem ↦ ?_, hjudged.status, hjudged.retained⟩
  obtain ⟨found, hverdict, hrest⟩ := hjudged.verdict modifier hmem
  exact ⟨found, himp modifier hmem found hverdict, hrest⟩

theorem foldl {γ : Type*} {groups : List γ} {members : γ → List Modifier}
    {judge : Selection → γ → Selection}
    (hgroups : ∀ group ∈ groups, Judges verdict (members group) fun before ↦ judge before group)
    (hapart : groups.Pairwise fun first second ↦ Apart (members first) (members second)) :
    Judges verdict (groups.flatMap members) fun before ↦ groups.foldl judge before := by
  induction groups with
  | nil => exact nil
  | cons group groups ih =>
    rw [List.pairwise_cons] at hapart
    have hhead := hgroups group (mem_cons_self ..)
    have htail := ih (fun other hother ↦ hgroups other (List.mem_cons_of_mem _ hother)) hapart.2
    apply hhead.comp htail
    intro modifier hmodifier other hother
    obtain ⟨later, hlater, hmember⟩ := mem_flatMap.mp hother
    exact hapart.1 later hlater modifier hmodifier other hmember

end Judges

namespace Selection

/-! ### Crowning -/

theorem status_crown (selection : Selection) (winner : Modifier) (members : List Modifier)
    (id : Ulid) : (selection.crown winner members).status.get? id =
      if id ∈ members.map Modifier.id ∧ id ≠ winner.id then some (.suppressed winner.id)
      else selection.status.get? id := by
  have hfold : ∀ start : Selection, (members.foldl (fun selection member ↦
      if member.id ≠ winner.id then selection.record member.id (.suppressed winner.id)
      else selection) start).status.get? id =
        if id ∈ members.map Modifier.id ∧ id ≠ winner.id then some (.suppressed winner.id)
        else start.status.get? id := by
    induction members with
    | nil => simp
    | cons member rest ih =>
      intro start
      rw [foldl_cons, ih]
      by_cases hlater : id ∈ rest.map Modifier.id ∧ id ≠ winner.id
      · rw [if_pos hlater, map_cons, if_pos ⟨List.mem_cons_of_mem _ hlater.1, hlater.2⟩]
      · rw [if_neg hlater]
        by_cases hmember : id = member.id
        · by_cases hwinner : member.id ≠ winner.id
          · rw [if_pos hwinner, hmember, map_cons, if_pos ⟨mem_cons_self .., hwinner⟩]
            exact BTreeMap.get?_insert_self ..
          · rw [if_neg hwinner, if_neg (fun h ↦ hwinner (hmember ▸ h.2))]
        · have hnone : ¬(id ∈ (member :: rest).map Modifier.id ∧ id ≠ winner.id) := by
            rintro ⟨hmem, hne⟩
            rw [map_cons, mem_cons] at hmem
            exact hlater ⟨hmem.resolve_left hmember, hne⟩
          rw [if_neg hnone]
          split_ifs
          · exact BTreeMap.get?_insert_of_ne _ hmember _
          · rfl
  exact hfold (selection.retain winner)

theorem retained_crown (selection : Selection) (winner : Modifier) (members : List Modifier) :
    (selection.crown winner members).retained = insert winner.key selection.retained := by
  have hfold : ∀ start : Selection, (members.foldl (fun selection member ↦
      if member.id ≠ winner.id then selection.record member.id (.suppressed winner.id)
      else selection) start).retained = start.retained := by
    induction members with
    | nil => exact fun _ ↦ rfl
    | cons member rest ih =>
      intro start
      rw [foldl_cons, ih]
      split_ifs
      · rfl
      · rfl
  exact hfold (selection.retain winner)

theorem status_foldl_record {status : ContributionStatus} (members : List Modifier)
    (selection : Selection) (id : Ulid) :
    (members.foldl (fun selection member ↦ selection.record member.id status)
      selection).status.get? id =
      if id ∈ members.map Modifier.id then some status else selection.status.get? id := by
  induction members generalizing selection with
  | nil => simp
  | cons member rest ih =>
    rw [foldl_cons, ih]
    by_cases hlater : id ∈ rest.map Modifier.id
    · rw [if_pos hlater, map_cons, if_pos (List.mem_cons_of_mem _ hlater)]
    · rw [if_neg hlater]
      by_cases hmember : id = member.id
      · rw [hmember, map_cons, if_pos (mem_cons_self ..)]
        exact BTreeMap.get?_insert_self ..
      · have hnone : id ∉ (member :: rest).map Modifier.id := by
          rw [map_cons, mem_cons, not_or]
          exact ⟨hmember, hlater⟩
        rw [if_neg hnone]
        exact BTreeMap.get?_insert_of_ne _ hmember _

theorem retained_foldl_record {status : ContributionStatus} (members : List Modifier)
    (selection : Selection) :
    (members.foldl (fun selection member ↦ selection.record member.id status)
      selection).retained = selection.retained := by
  induction members generalizing selection with
  | nil => rfl
  | cons member rest ih =>
    rw [foldl_cons, ih]
    rfl

theorem foldl_retain (members : List Modifier) (selection : Selection) :
    (members.foldl retain selection).status = selection.status ∧
      ∀ key, key ∈ (members.foldl retain selection).retained ↔
        key ∈ selection.retained ∨ key ∈ members.map Modifier.key := by
  induction members generalizing selection with
  | nil => simp
  | cons member rest ih =>
    obtain ⟨hstatus, hretained⟩ := ih (selection.retain member)
    refine ⟨hstatus, fun key ↦ ?_⟩
    rw [foldl_cons, hretained, map_cons, mem_cons]
    show key ∈ insert member.key selection.retained ∨ _ ↔ _
    rw [Finset.mem_insert]
    tauto

/-! ### Contests -/

structure Contest (policy : StackingPolicy) (members entrants : List Modifier) : Prop where
  member : ∀ modifier ∈ entrants, modifier ∈ members
  nonzero : ∀ modifier ∈ entrants, ¬AddsNothing policy modifier
  rivals : ∀ modifier ∈ entrants, ∀ other ∈ members,
    Rivals policy modifier other ↔ other ∈ entrants

variable {policy : StackingPolicy} {members entrants : List Modifier} {winner : Modifier}

theorem judges_crown (hcontest : Contest policy members entrants)
    (hnodup : (members.map Modifier.id).Nodup) (hwinner : winner ∈ entrants)
    (hbest : ∀ other ∈ entrants, other.rank policy ≤ winner.rank policy) :
    Judges (Verdict policy members) entrants fun before ↦ before.crown winner entrants := by
  have hunbeaten : Unbeaten policy members winner := by
    intro other hother hrivals
    exact hbest other ((hcontest.rivals winner hwinner other hother).mp hrivals)
  intro before hunseen
  refine ⟨fun modifier hmem ↦ ?_, fun id hid ↦ ?_, fun key hkey ↦ ?_⟩
  · have hnot := hunseen modifier hmem
    by_cases hsame : modifier.id = winner.id
    · have heq : modifier = winner := eq_of_key_eq hnodup (hcontest.member modifier hmem)
        (hcontest.member winner hwinner) hsame
      refine ⟨none, ?_, ?_, ?_⟩
      · rw [heq]
        exact Verdict.wins (hcontest.nonzero winner hwinner) hunbeaten
      · rw [status_crown, if_neg fun h ↦ h.2 hsame]
        exact hnot.1
      · rw [retained_crown, heq]
        exact iff_of_true (Finset.mem_insert_self ..) rfl
    · refine ⟨some (.suppressed winner.id), ?_, ?_, ?_⟩
      · apply Verdict.loses (hcontest.nonzero modifier hmem) (hcontest.member winner hwinner)
          ((hcontest.rivals modifier hmem winner (hcontest.member winner hwinner)).mpr hwinner)
          (fun h ↦ hsame h.symm) hunbeaten
      · rw [status_crown, if_pos ⟨mem_map_of_mem hmem, hsame⟩]
      · rw [retained_crown, Finset.mem_insert]
        apply iff_of_false ?_ nofun
        rintro (hkey | hkey)
        · exact hsame (id_eq_of_key_eq hkey)
        · exact hnot.2 hkey
  · rw [status_crown, if_neg fun h ↦ hid h.1]
  · rw [retained_crown, Finset.mem_insert]
    apply or_iff_right
    rintro rfl
    exact hkey (mem_map_of_mem hwinner)

/-! ### Bonuses and penalties -/

/-- Additions whose amounts are of one kind. -/
def Comparable (members : List Modifier) : Prop :=
  (∀ modifier ∈ members, ∃ amount, modifier.op = .add (.int amount)) ∨
    ∀ modifier ∈ members, ∃ amount, modifier.op = .add (.fixed amount)

theorem sign_amount (modifier : Modifier) : modifier.amount.sign = modifier.added.sign := by
  unfold Modifier.added
  cases modifier.amount with
  | int value => rfl
  | fixed value => rfl

theorem compare_amount (hcomparable : Comparable members) {first second : Modifier}
    (hfirst : first ∈ members) (hsecond : second ∈ members) :
    first.amount.compare second.amount = Ord.compare first.added second.added := by
  cases hcomparable with
  | inl hint =>
    obtain ⟨amount, hamount⟩ := hint first hfirst
    obtain ⟨other, hother⟩ := hint second hsecond
    simp only [Modifier.added, Modifier.amount, hamount, hother, addAmount, Option.getD_some]
    rfl
  | inr hfixed =>
    obtain ⟨amount, hamount⟩ := hfixed first hfirst
    obtain ⟨other, hother⟩ := hfixed second hsecond
    simp only [Modifier.added, Modifier.amount, hamount, hother, addAmount, Option.getD_some]
    rfl

theorem additions_eq (hcomparable : Comparable members) :
    additions members = members.map fun modifier ↦ (modifier, modifier.amount) := by
  have hone : ∀ modifier ∈ members, (match modifier.op with
      | .add value => (addAmount value).map fun amount ↦ (modifier, amount)
      | _ => none) = some (modifier, modifier.amount) := by
    intro modifier hmem
    cases hcomparable with
    | inl hint =>
      obtain ⟨amount, hamount⟩ := hint modifier hmem
      simp only [Modifier.amount, hamount, addAmount, Option.map_some, Option.getD_some]
    | inr hfixed =>
      obtain ⟨amount, hamount⟩ := hfixed modifier hmem
      simp only [Modifier.amount, hamount, addAmount, Option.map_some, Option.getD_some]
  unfold additions
  rw [← List.filterMap_eq_map]
  exact List.filterMap_congr hone

def sideSign (positive : Bool) : ℤ := if positive then 1 else -1

theorem replaces_iff (hcomparable : Comparable members) {positive : Bool} {first second : Modifier}
    (hfirst : first ∈ members) (hsecond : second ∈ members)
    (hsign : first.added.sign = sideSign positive) (hsign' : second.added.sign = sideSign positive) :
    replaces positive (first, first.amount) (second, second.amount) = true ↔
      second.rank .highestBonusWorstPenalty < first.rank .highestBonusWorstPenalty := by
  simp only [replaces, compare_amount hcomparable hfirst hsecond, Modifier.rank,
    Bool.or_eq_true, Bool.and_eq_true, decide_eq_true_eq, Prod.Lex.toLex_lt_toLex]
  cases positive with
  | true =>
    have hpos := Int.sign_eq_one_iff_pos.mp hsign
    have hpos' := Int.sign_eq_one_iff_pos.mp hsign'
    have hlt : second.added.natAbs < first.added.natAbs ↔ second.added < first.added := by omega
    have heq : second.added.natAbs = first.added.natAbs ↔ first.added = second.added := by omega
    rw [hlt, heq, if_pos rfl, compare_gt_iff_gt, compare_eq_iff_eq]
  | false =>
    have hneg := Int.sign_eq_neg_one_iff_neg.mp hsign
    have hneg' := Int.sign_eq_neg_one_iff_neg.mp hsign'
    have hlt : second.added.natAbs < first.added.natAbs ↔ first.added < second.added := by omega
    have heq : second.added.natAbs = first.added.natAbs ↔ first.added = second.added := by omega
    rw [hlt, heq, if_neg Bool.false_ne_true, compare_lt_iff_lt, compare_eq_iff_eq]

theorem bestOf_map (positive : Bool) (first : Modifier) (rest : List Modifier) :
    bestOf positive ((first :: rest).map fun modifier ↦ (modifier, modifier.amount)) =
      some ((fun modifier ↦ (modifier, modifier.amount)) (bestFrom (fun item best ↦
        replaces positive (item, item.amount) (best, best.amount)) first rest)) := by
  unfold bestOf
  rw [map_cons, foldl_cons]
  induction rest generalizing first with
  | nil => rfl
  | cons second rest ih =>
    rw [map_cons, foldl_cons]
    by_cases hreplaces : replaces positive (second, second.amount) (first, first.amount) = true
    · simp only [hreplaces, if_true, bestFrom, foldl_cons] at ih ⊢
      exact ih second
    · simp only [hreplaces, bestFrom, foldl_cons] at ih ⊢
      exact ih first

def sideOf (sign : ℤ) (members : List Modifier) : List Modifier :=
  members.filter fun modifier ↦ modifier.added.sign = sign

theorem mem_sideOf {sign : ℤ} {modifier : Modifier} :
    modifier ∈ sideOf sign members ↔ modifier ∈ members ∧ modifier.added.sign = sign := by
  rw [sideOf, mem_filter, decide_eq_true_eq]

theorem filter_additions (hcomparable : Comparable members) (sign : ℤ) :
    ((additions members).filter fun entry ↦ entry.2.sign = sign) =
      (sideOf sign members).map fun modifier ↦ (modifier, modifier.amount) := by
  rw [additions_eq hcomparable, List.filter_map]
  congr 1
  apply List.filter_congr
  intro modifier _
  show decide (modifier.amount.sign = sign) = _
  rw [sign_amount]

theorem judges_selectSide (hcomparable : Comparable members)
    (hnodup : (members.map Modifier.id).Nodup) (positive : Bool) :
    Judges (Verdict .highestBonusWorstPenalty members) (sideOf (sideSign positive) members)
      fun before ↦ before.selectSide positive
        ((sideOf (sideSign positive) members).map fun modifier ↦ (modifier, modifier.amount)) := by
  have hcontest : Contest .highestBonusWorstPenalty members
      (sideOf (sideSign positive) members) := by
    refine ⟨fun modifier hmem ↦ (mem_sideOf.mp hmem).1, fun modifier hmem hnothing ↦ ?_,
      fun modifier hmem other hother ↦ ?_⟩
    · have hsign := (mem_sideOf.mp hmem).2
      rw [hnothing.2, sideSign] at hsign
      cases positive with
      | true => exact absurd hsign (by decide)
      | false => exact absurd hsign (by decide)
    · rw [mem_sideOf, Rivals, (mem_sideOf.mp hmem).2]
      exact ⟨fun hsign ↦ ⟨hother, hsign.symm⟩, fun hside ↦ hside.2.symm⟩
  generalize hside : sideOf (sideSign positive) members = side at hcontest
  cases side with
  | nil => exact Judges.nil
  | cons first rest =>
    have hmember : ∀ modifier ∈ first :: rest, modifier ∈ members ∧
        modifier.added.sign = sideSign positive := by
      intro modifier hmem
      rw [← hside] at hmem
      exact mem_sideOf.mp hmem
    have houtranks : ∀ item ∈ first :: rest, ∀ best ∈ first :: rest,
        (replaces positive (item, item.amount) (best, best.amount) = true ↔
          best.rank .highestBonusWorstPenalty < item.rank .highestBonusWorstPenalty) := by
      intro item hitem best hbest
      exact replaces_iff hcomparable (hmember item hitem).1 (hmember best hbest).1
        (hmember item hitem).2 (hmember best hbest).2
    obtain ⟨hwinner, hbest⟩ := @bestFrom_spec _ _ _ (Modifier.rank .highestBonusWorstPenalty)
      (fun item best ↦ replaces positive (item, item.amount) (best, best.amount)) first rest
      (fun item hitem best hbest hreplaces ↦ ((houtranks item hitem best hbest).mp hreplaces).le)
      (fun item hitem best hbest hkeeps ↦ by
        rw [← not_lt, ← houtranks item hitem best hbest, hkeeps]
        exact Bool.false_ne_true)
    have hcrown := judges_crown hcontest hnodup hwinner hbest
    have hstep : ∀ before : Selection, before.selectSide positive
        ((first :: rest).map fun modifier ↦ (modifier, modifier.amount)) =
          before.crown (bestFrom (fun item best ↦
            replaces positive (item, item.amount) (best, best.amount)) first rest)
            (first :: rest) := by
      intro before
      rw [selectSide, bestOf_map]
      simp only [List.map_map, Function.comp_def, List.map_id']
    simp only [hstep]
    exact hcrown

theorem judges_zero (members : List Modifier) :
    Judges (Verdict .highestBonusWorstPenalty members) (sideOf 0 members) fun before ↦
      ((sideOf 0 members).map fun modifier ↦ (modifier, modifier.amount)).foldl
        (fun selection entry ↦ selection.record entry.1.id .zeroAdd) before := by
  intro before hunseen
  simp only [List.foldl_map]
  refine ⟨fun modifier hmem ↦ ⟨some .zeroAdd, ?_, ?_, ?_⟩, fun id hid ↦ ?_, fun key hkey ↦ ?_⟩
  · exact Verdict.zero ⟨rfl, Int.sign_eq_zero_iff_zero.mp (mem_sideOf.mp hmem).2⟩
  · rw [status_foldl_record, if_pos (mem_map_of_mem hmem)]
  · rw [retained_foldl_record]
    exact iff_of_false (hunseen modifier hmem).2 nofun
  · rw [status_foldl_record, if_neg hid]
  · rw [retained_foldl_record]

theorem apart_sideOf {first second : ℤ} (hne : first ≠ second)
    (hnodup : (members.map Modifier.id).Nodup) :
    Apart (sideOf first members) (sideOf second members) := by
  intro modifier hmodifier other hother hid
  rw [mem_sideOf] at hmodifier hother
  have heq := eq_of_key_eq hnodup hmodifier.1 hother.1 hid
  rw [heq, hother.2] at hmodifier
  exact hne hmodifier.2.symm

theorem judges_bonusPenalty (hcomparable : Comparable members)
    (hnodup : (members.map Modifier.id).Nodup) :
    Judges (Verdict .highestBonusWorstPenalty members) members fun before ↦
      selectGroup .highestBonusWorstPenalty before members := by
  have hpositive := judges_selectSide hcomparable hnodup true
  have hnegative := judges_selectSide hcomparable hnodup false
  have hsides := ((judges_zero members).comp hpositive
    (apart_sideOf (by decide) hnodup)).comp hnegative (by
      intro modifier hmodifier other hother
      rw [mem_append] at hmodifier
      cases hmodifier with
      | inl hzero => exact apart_sideOf (by decide) hnodup modifier hzero other hother
      | inr hbonus => exact apart_sideOf (by decide) hnodup modifier hbonus other hother)
  have hstep : (fun before ↦ selectGroup .highestBonusWorstPenalty before members) =
      (fun before : Selection ↦ before.selectSide false
        ((sideOf (sideSign false) members).map fun modifier ↦ (modifier, modifier.amount))) ∘
      (fun before : Selection ↦ before.selectSide true
        ((sideOf (sideSign true) members).map fun modifier ↦ (modifier, modifier.amount))) ∘
      fun before ↦ ((sideOf 0 members).map fun modifier ↦ (modifier, modifier.amount)).foldl
        (fun selection entry ↦ selection.record entry.1.id .zeroAdd) before := by
    funext before
    simp only [selectGroup, filter_additions hcomparable]
    rfl
  rw [hstep]
  apply hsides.of_mem_iff
  intro modifier
  simp only [mem_append, mem_sideOf]
  constructor
  · intro hmem
    obtain hzero | hpos | hneg : modifier.added.sign = 0 ∨ modifier.added.sign = 1 ∨
        modifier.added.sign = -1 := by
      rw [Int.sign_eq_zero_iff_zero, Int.sign_eq_one_iff_pos, Int.sign_eq_neg_one_iff_neg]
      omega
    · exact Or.inl (Or.inl ⟨hmem, hzero⟩)
    · exact Or.inl (Or.inr ⟨hmem, hpos⟩)
    · exact Or.inr ⟨hmem, hneg⟩
  · rintro ((hzero | hpos) | hneg)
    · exact hzero.1
    · exact hpos.1
    · exact hneg.1

/-! ### Names -/

theorem byName_eq (members : List Modifier) : byName members = collect Modifier.name members := by
  unfold byName collect
  congr 1
  funext names modifier
  unfold collectOne
  cases modifier.name with
  | none => rfl
  | some name => rfl

theorem greatest_cons (first : Modifier) (rest : List Modifier) :
    greatest (first :: rest) = some (bestFrom (fun item best ↦
      decide (best.rank .highestPriorityPerName ≤ item.rank .highestPriorityPerName))
      first rest) := by
  have hrank : ∀ best item : Modifier,
      best.rank .highestPriorityPerName ≤ item.rank .highestPriorityPerName ↔
        toLex (best.priority, best.id) ≤ toLex (item.priority, item.id) := by
    intro best item
    simp only [Modifier.rank, Prod.Lex.toLex_le_toLex, lt_irrefl, false_or, true_and]
  simp only [greatest, bestFrom, hrank, decide_eq_true_eq]

theorem judges_name (hnodup : (members.map Modifier.id).Nodup) {name : String}
    {named : List Modifier}
    (hnamed : named = members.filter fun modifier ↦ modifier.name = some name) :
    Judges (Verdict .highestPriorityPerName members) named fun before ↦
      match greatest named with
      | some winner => before.crown winner named
      | none => before := by
  have hmember : ∀ modifier, modifier ∈ named ↔ modifier ∈ members ∧ modifier.name = some name := by
    intro modifier
    rw [hnamed, mem_filter, decide_eq_true_eq]
  have hcontest : Contest .highestPriorityPerName members named := by
    refine ⟨fun modifier hmem ↦ ((hmember modifier).mp hmem).1, fun _ _ ↦ nofun,
      fun modifier hmem other hother ↦ ?_⟩
    rw [hmember, Rivals, ((hmember modifier).mp hmem).2]
    exact ⟨fun hname ↦ ⟨hother, hname.symm⟩, fun hname ↦ hname.2.symm⟩
  cases named with
  | nil => exact Judges.nil
  | cons first rest =>
    simp only [greatest_cons]
    obtain ⟨hwinner, hbest⟩ := @bestFrom_spec _ _ _ (Modifier.rank .highestPriorityPerName)
      (fun item best ↦
        decide (best.rank .highestPriorityPerName ≤ item.rank .highestPriorityPerName))
      first rest (fun _ _ _ _ hreplaces ↦ of_decide_eq_true hreplaces)
      (fun _ _ _ _ hkeeps ↦ (lt_of_not_ge (of_decide_eq_false hkeeps)).le)
    exact judges_crown hcontest hnodup hwinner hbest

theorem judges_names (hnodup : (members.map Modifier.id).Nodup)
    (hnamed : ∀ modifier ∈ members, ∃ name, modifier.name = some name) :
    Judges (Verdict .highestPriorityPerName members) members fun before ↦
      selectGroup .highestPriorityPerName before members := by
  have hgroup : ∀ entry ∈ (collect Modifier.name members).entries,
      entry.2 = members.filter fun modifier ↦ modifier.name = some entry.1 :=
    fun entry hentry ↦ (mem_entries_collect.mp hentry).2
  have hapart : (collect Modifier.name members).entries.Pairwise
      fun first second ↦ Apart first.2 second.2 := by
    apply (collect Modifier.name members).ascending.imp_of_mem
    intro first second hfirst hsecond hlt modifier hmodifier other hother hid
    rw [hgroup first hfirst, mem_filter, decide_eq_true_eq] at hmodifier
    rw [hgroup second hsecond, mem_filter, decide_eq_true_eq] at hother
    have heq := eq_of_key_eq hnodup hmodifier.1 hother.1 hid
    rw [heq, hother.2, Option.some.injEq] at hmodifier
    exact hlt.ne hmodifier.2.symm
  have hjudges := Judges.foldl (fun entry hentry ↦ judges_name hnodup (hgroup entry hentry)) hapart
  have hstep : (fun before ↦ selectGroup .highestPriorityPerName before members) =
      fun before ↦ (collect Modifier.name members).entries.foldl (fun selection entry ↦
        match greatest entry.2 with
        | some winner => selection.crown winner entry.2
        | none => selection) before := by
    funext before
    rw [selectGroup, byName_eq, BTreeMap.values]
    exact List.foldl_map
  rw [hstep]
  apply hjudges.of_mem_iff
  intro modifier
  rw [mem_flatMap]
  constructor
  · intro hmem
    obtain ⟨name, hname⟩ := hnamed modifier hmem
    have hin : modifier ∈ members.filter fun modifier ↦ modifier.name = some name := by
      rw [mem_filter, decide_eq_true_eq]
      exact ⟨hmem, hname⟩
    exact ⟨(name, _), mem_entries_collect.mpr ⟨List.ne_nil_of_mem hin, rfl⟩, hin⟩
  · rintro ⟨entry, hentry, hmem⟩
    rw [hgroup entry hentry] at hmem
    exact (mem_filter.mp hmem).1

/-! ### Groups -/

theorem judges_stackAll (members : List Modifier) :
    Judges (Verdict .stackAll members) members fun before ↦
      selectGroup .stackAll before members := by
  intro before hunseen
  show Judged _ _ before (members.foldl retain before)
  obtain ⟨hstatus, hretained⟩ := foldl_retain members before
  refine ⟨fun modifier hmem ↦ ⟨none, ?_, ?_, ?_⟩, fun id _ ↦ ?_, fun key hkey ↦ ?_⟩
  · exact Verdict.wins nofun fun _ _ hrivals ↦ hrivals.elim
  · rw [hstatus]
    exact (hunseen modifier hmem).1
  · rw [hretained]
    exact iff_of_true (Or.inr (mem_map_of_mem hmem)) rfl
  · rw [hstatus]
  · rw [hretained, or_iff_left hkey]

structure GroupFits (policy : StackingPolicy) (members : List Modifier) : Prop where
  nodup : (members.map Modifier.id).Nodup
  comparable : policy = .highestBonusWorstPenalty → Comparable members
  named : policy = .highestPriorityPerName → ∀ modifier ∈ members, ∃ name, modifier.name = some name

theorem judges_selectGroup (hfits : GroupFits policy members) :
    Judges (Verdict policy members) members fun before ↦ selectGroup policy before members := by
  cases policy with
  | stackAll => exact judges_stackAll members
  | highestBonusWorstPenalty => exact judges_bonusPenalty (hfits.comparable rfl) hfits.nodup
  | highestPriorityPerName => exact judges_names hfits.nodup (hfits.named rfl)

end Selection

/-! ### Targets -/

def groupOf (tags : TagSet) (targeting : List Modifier) (modifier : Modifier) : List Modifier :=
  targeting.filter fun other ↦ Selection.live tags other = true ∧
    other.modType = modifier.modType ∧ phaseOf other.op = phaseOf modifier.op

theorem mem_groupOf {tags : TagSet} {targeting : List Modifier} {modifier other : Modifier} :
    other ∈ groupOf tags targeting modifier ↔ other ∈ targeting ∧
      Selection.live tags other = true ∧ other.modType = modifier.modType ∧
        phaseOf other.op = phaseOf modifier.op := by
  rw [groupOf, mem_filter, decide_eq_true_eq]

inductive Standing (policies : BTreeMap String StackingPolicy) (tags : TagSet)
    (targeting : List Modifier) (modifier : Modifier) : Option ContributionStatus → Prop
  | excluded (hlive : Selection.live tags modifier = false) :
      Standing policies tags targeting modifier (some .conditionFalse)
  | judged {policy : StackingPolicy} {found : Option ContributionStatus}
      (hlive : Selection.live tags modifier = true)
      (hpolicy : policies.get? modifier.modType = some policy)
      (hverdict : Verdict policy (groupOf tags targeting modifier) modifier found) :
      Standing policies tags targeting modifier found

structure TargetingFits (policies : BTreeMap String StackingPolicy) (targeting : List Modifier) :
    Prop where
  nodup : (targeting.map Modifier.id).Nodup
  policy : ∀ modifier ∈ targeting, ∃ policy, policies.get? modifier.modType = some policy
  comparable : ∀ members : List Modifier, (∀ modifier ∈ members, modifier ∈ targeting ∧
    policies.get? modifier.modType = some .highestBonusWorstPenalty) → Selection.Comparable members
  named : ∀ modifier ∈ targeting,
    policies.get? modifier.modType = some .highestPriorityPerName → ∃ name, modifier.name = some name

def groupKey (modifier : Modifier) : String ×ₗ Fin 4 := toLex (modifier.modType, phaseOf modifier.op)

namespace Selection

theorem mem_groupsOf {modifiers : List Modifier} {entry : (String ×ₗ Fin 4) × List Modifier} :
    entry ∈ (groupsOf modifiers).entries ↔ entry.2 ≠ [] ∧
      entry.2 = modifiers.filter fun modifier ↦ groupKey modifier = entry.1 := by
  have hcollect : groupsOf modifiers =
      collect (fun modifier ↦ some (groupKey modifier)) modifiers := rfl
  rw [hcollect, ← Prod.eta entry, mem_entries_collect]
  simp only [Option.some.injEq]

theorem groupKey_eq_iff {first second : Modifier} : groupKey first = groupKey second ↔
    first.modType = second.modType ∧ phaseOf first.op = phaseOf second.op := by
  rw [groupKey, groupKey, toLex_inj, Prod.mk.injEq]

variable {policies : BTreeMap String StackingPolicy} {tags : TagSet} {targeting : List Modifier}

theorem judges_group (hfits : TargetingFits policies targeting)
    {entry : (String ×ₗ Fin 4) × List Modifier}
    (hentry : entry ∈ (groupsOf (targeting.filter (live tags))).entries) :
    Judges (Standing policies tags targeting) entry.2 fun before ↦
      selectGroup ((policies.get? (ofLex entry.1).1).getD .stackAll) before entry.2 := by
  obtain ⟨hne, hmembers⟩ := mem_groupsOf.mp hentry
  have hmember : ∀ modifier, modifier ∈ entry.2 ↔
      (modifier ∈ targeting ∧ live tags modifier = true) ∧ groupKey modifier = entry.1 := by
    intro modifier
    rw [hmembers, mem_filter, mem_filter, decide_eq_true_eq]
  obtain ⟨first, hfirst⟩ := List.exists_mem_of_ne_nil _ hne
  obtain ⟨policy, hpolicy⟩ := hfits.policy first ((hmember first).mp hfirst).1.1
  have htype : ∀ modifier ∈ entry.2, modifier.modType = (ofLex entry.1).1 := by
    intro modifier hmem
    rw [← ((hmember modifier).mp hmem).2]
    rfl
  have hpolicies : ∀ modifier ∈ entry.2, policies.get? modifier.modType = some policy := by
    intro modifier hmem
    rw [htype modifier hmem, ← htype first hfirst]
    exact hpolicy
  rw [← htype first hfirst, hpolicy, Option.getD_some]
  have hgroup : GroupFits policy entry.2 := by
    refine ⟨?_, fun hbonus ↦ ?_, fun hnames modifier hmem ↦ ?_⟩
    · rw [hmembers]
      exact hfits.nodup.sublist ((List.filter_sublist.trans List.filter_sublist).map _)
    · apply hfits.comparable
      intro modifier hmem
      rw [← hbonus]
      exact ⟨((hmember modifier).mp hmem).1.1, hpolicies modifier hmem⟩
    · apply hfits.named modifier ((hmember modifier).mp hmem).1.1
      rw [← hnames]
      exact hpolicies modifier hmem
  apply (judges_selectGroup hgroup).imp
  intro modifier hmem found hverdict
  have hsame : groupOf tags targeting modifier = entry.2 := by
    rw [hmembers, groupOf, List.filter_filter]
    apply List.filter_congr
    intro other _
    rw [← ((hmember modifier).mp hmem).2, Bool.eq_iff_iff, Bool.and_eq_true, decide_eq_true_eq,
      decide_eq_true_eq, groupKey_eq_iff]
    tauto
  apply Standing.judged ((hmember modifier).mp hmem).1.2 (hpolicies modifier hmem)
  rw [hsame]
  exact hverdict

/-- The selection of a target gives every modifier its outcome. -/
theorem judged_selectTargeting (hfits : TargetingFits policies targeting) :
    Judged (Standing policies tags targeting) targeting ⟨∅, .empty⟩
      (selectTargeting policies tags targeting) := by
  have hexcluded : Judges (Standing policies tags targeting)
      (targeting.filter fun modifier ↦ !live tags modifier) fun before ↦
        (targeting.filter fun modifier ↦ !live tags modifier).foldl
          (fun selection modifier ↦ selection.record modifier.id .conditionFalse) before := by
    intro before hunseen
    refine ⟨fun modifier hmem ↦ ⟨some .conditionFalse, ?_, ?_, ?_⟩, fun id hid ↦ ?_,
      fun key hkey ↦ ?_⟩
    · rw [mem_filter, Bool.not_eq_true'] at hmem
      exact Standing.excluded hmem.2
    · rw [status_foldl_record, if_pos (mem_map_of_mem hmem)]
    · rw [retained_foldl_record]
      exact iff_of_false (hunseen modifier hmem).2 nofun
    · rw [status_foldl_record, if_neg hid]
    · rw [retained_foldl_record]
  have hmember : ∀ entry ∈ (groupsOf (targeting.filter (live tags))).entries,
      ∀ modifier ∈ entry.2, (modifier ∈ targeting ∧ live tags modifier = true) ∧
        groupKey modifier = entry.1 := by
    intro entry hentry modifier hmem
    rw [(mem_groupsOf.mp hentry).2, mem_filter, mem_filter, decide_eq_true_eq] at hmem
    exact hmem
  have hgroups := Judges.foldl (fun entry hentry ↦ judges_group hfits hentry) (by
    apply (groupsOf (targeting.filter (live tags))).ascending.imp_of_mem
    intro first second hfirst hsecond hlt modifier hmodifier other hother hid
    have hfound := hmember first hfirst modifier hmodifier
    have hfound' := hmember second hsecond other hother
    have heq := eq_of_key_eq hfits.nodup hfound.1.1 hfound'.1.1 hid
    rw [heq, hfound'.2] at hfound
    exact hlt.ne hfound.2.symm)
  have hall := hexcluded.comp hgroups (by
    intro modifier hmodifier other hother hid
    obtain ⟨entry, hentry, hmem⟩ := mem_flatMap.mp hother
    have hfound := hmember entry hentry other hmem
    rw [mem_filter, Bool.not_eq_true'] at hmodifier
    have heq := eq_of_key_eq hfits.nodup hmodifier.1 hfound.1.1 hid
    rw [heq, hfound.1.2] at hmodifier
    exact absurd hmodifier.2 (by decide))
  have hpart : ∀ modifier, modifier ∈ targeting ↔
      modifier ∈ (targeting.filter fun modifier ↦ !live tags modifier) ++
        (groupsOf (targeting.filter (live tags))).entries.flatMap fun entry ↦ entry.2 := by
    intro modifier
    rw [mem_append, mem_flatMap, mem_filter, Bool.not_eq_true']
    constructor
    · intro hmem
      by_cases hlive : live tags modifier = true
      · have hin : modifier ∈ (targeting.filter (live tags)).filter fun other ↦
            groupKey other = groupKey modifier := by
          rw [mem_filter, mem_filter, decide_eq_true_eq]
          exact ⟨⟨hmem, hlive⟩, rfl⟩
        exact Or.inr ⟨(groupKey modifier, _),
          mem_groupsOf.mpr ⟨List.ne_nil_of_mem hin, rfl⟩, hin⟩
      · rw [Bool.not_eq_true] at hlive
        exact Or.inl ⟨hmem, hlive⟩
    · rintro (hexcluded | ⟨entry, hentry, hmem⟩)
      · exact hexcluded.1
      · exact (hmember entry hentry modifier hmem).1.1
  exact hall.of_mem_iff hpart ⟨∅, .empty⟩ fun _ _ ↦ ⟨rfl, Finset.notMem_empty _⟩

end Selection

end Crpg.Rules
