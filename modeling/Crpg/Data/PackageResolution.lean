import Crpg.Data.Package
import Crpg.Lib.Collect
import Mathlib.Order.Bounds.Basic

/-!
# Resolution depends on the sets of requirements and candidates

`Resolves` says what a resolution is in terms of which requirements and candidates there are: the
least package in kind conflict, else the least candidate key in conflict, else the least required
package no candidate is eligible for, else the greatest eligible candidate of every required
package. It has one result, `resolvePackages` computes it, and it speaks of membership only, so
neither the order nor the number of times an entry is listed matters. A resolved lock passes the two
checks of locks.
-/

set_option autoImplicit false

namespace Crpg.Data

open Crpg.Lib Crpg.Rules

variable {semver : Semver}

/-! ### What a resolution is -/

def Required (requirements : List (PackageRequirement semver)) (id : PackageId) : Prop :=
  ∃ requirement ∈ requirements, requirement.package = id

def KindConflict (requirements : List (PackageRequirement semver)) (id : PackageId) : Prop :=
  ∃ first ∈ requirements, ∃ second ∈ requirements,
    first.package = id ∧ second.package = id ∧ first.kind ≠ second.kind

def CandidateConflict (candidates : List (PackageCandidate semver)) (key : PackageId ×ₗ String) :
    Prop :=
  ∃ first ∈ candidates, ∃ second ∈ candidates,
    first.key = key ∧ second.key = key ∧
      (first.kind ≠ second.kind ∨ first.checksum ≠ second.checksum)

/-- A candidate of the required kind that is in every required range. -/
def Eligible (requirements : List (PackageRequirement semver))
    (candidates : List (PackageCandidate semver)) (id : PackageId)
    (candidate : PackageCandidate semver) : Prop :=
  candidate ∈ candidates ∧ candidate.package = id ∧
    ∀ requirement ∈ requirements, requirement.package = id →
      requirement.kind = candidate.kind ∧
        semver.matchesVersion requirement.version candidate.version = true

def Selected (requirements : List (PackageRequirement semver))
    (candidates : List (PackageCandidate semver)) (id : PackageId)
    (candidate : PackageCandidate semver) : Prop :=
  Eligible requirements candidates id candidate ∧
    ∀ other, Eligible requirements candidates id other →
      semver.rank other.version candidate.version ≠ .gt

def Unresolved (requirements : List (PackageRequirement semver))
    (candidates : List (PackageCandidate semver)) (id : PackageId) : Prop :=
  Required requirements id ∧ ∀ candidate, ¬Eligible requirements candidates id candidate

def Resolves (requirements : List (PackageRequirement semver))
    (candidates : List (PackageCandidate semver)) :
    Except PackageError (List (ResolvedPackage semver)) → Prop
  | .error (.packageKindConflict id) => IsLeast {id | KindConflict requirements id} id
  | .error (.candidateConflict id version) =>
    (∀ id, ¬KindConflict requirements id) ∧
      IsLeast {key | CandidateConflict candidates key} (toLex (id, version))
  | .error (.unresolvedPackage id ranges) =>
    (∀ id, ¬KindConflict requirements id) ∧ (∀ key, ¬CandidateConflict candidates key) ∧
      IsLeast {id | Unresolved requirements candidates id} id ∧
      ranges.Pairwise (· < ·) ∧ ∀ range, range ∈ ranges ↔
        ∃ requirement ∈ requirements, requirement.package = id ∧
          semver.reqText requirement.version = range
  | .error (.invalidLock _) => False
  | .ok packages =>
    (∀ id, ¬KindConflict requirements id) ∧ (∀ key, ¬CandidateConflict candidates key) ∧
      packages.Pairwise (fun first second ↦ first.package < second.package) ∧
      (∀ id, (∃ package ∈ packages, package.package = id) ↔ Required requirements id) ∧
      ∀ package ∈ packages, ∃ candidate,
        Selected requirements candidates package.package candidate ∧
          package = candidate.resolved

/-! ### Ranks -/

namespace Semver

theorem swap_rank (first second : semver.Version) :
    (semver.rank first second).swap = semver.rank second first := by
  have htext := @Std.OrientedCmp.eq_swap String compare _ (semver.toText second)
    (semver.toText first)
  unfold rank
  rw [Ordering.swap_then, semver.swap_precedence, htext]

variable {first second : semver.Version}

/-- A version is not above another when it has less precedence, or the same and no greater text. -/
theorem rank_ne_gt_iff : semver.rank first second ≠ .gt ↔ semver.cmpPrecedence first second ≠ .gt ∧
      (semver.cmpPrecedence first second = .eq → semver.toText first ≤ semver.toText second) := by
  unfold rank
  rw [ne_eq, Ordering.then_eq_gt, not_or, not_and, ← compare_le_iff_le]

theorem eq_of_swap (hle : semver.cmpPrecedence first second ≠ .gt)
    (hge : semver.cmpPrecedence second first ≠ .gt) : semver.cmpPrecedence first second = .eq := by
  rw [← semver.swap_precedence first second] at hge
  cases hcmp : semver.cmpPrecedence first second with
  | lt =>
    rw [hcmp] at hge
    exact absurd rfl hge
  | eq => rfl
  | gt => exact absurd hcmp hle

theorem trans_rank (first second third : semver.Version)
    (hfirst : semver.rank first second ≠ .gt) (hsecond : semver.rank second third ≠ .gt) :
    semver.rank first third ≠ .gt := by
  rw [rank_ne_gt_iff] at hfirst hsecond ⊢
  refine ⟨semver.trans_precedence _ _ _ hfirst.1 hsecond.1, fun heq ↦ ?_⟩
  have hback : semver.cmpPrecedence third first ≠ .gt := by
    rw [← semver.swap_precedence first third, heq]
    decide
  have hone := eq_of_swap hfirst.1 (semver.trans_precedence _ _ _ hsecond.1 hback)
  have htwo := eq_of_swap hsecond.1 (semver.trans_precedence _ _ _ hback hfirst.1)
  exact (hfirst.2 hone).trans (hsecond.2 htwo)

theorem eq_of_rank (hle : semver.rank first second ≠ .gt) (hge : semver.rank second first ≠ .gt) :
    first = second := by
  rw [rank_ne_gt_iff] at hle hge
  have hone := eq_of_swap hle.1 hge.1
  have htwo := eq_of_swap hge.1 hle.1
  exact semver.toText_injective (le_antisymm (hle.2 hone) (hge.2 htwo))

end Semver

/-! ### One result -/

section Unique

variable {requirements : List (PackageRequirement semver)}
  {candidates : List (PackageCandidate semver)}
  {result : Except PackageError (List (ResolvedPackage semver))}

theorem Resolves.of_kindConflict (hresult : Resolves requirements candidates result)
    (hkind : ∃ id, KindConflict requirements id) : ∃ id, result = .error (.packageKindConflict id) ∧
      IsLeast {id | KindConflict requirements id} id := by
  obtain ⟨id, hid⟩ := hkind
  match result with
  | .error (.packageKindConflict found) => exact ⟨found, rfl, hresult⟩
  | .error (.candidateConflict _ _) => exact absurd hid (hresult.1 id)
  | .error (.unresolvedPackage _ _) => exact absurd hid (hresult.1 id)
  | .error (.invalidLock _) => exact hresult.elim
  | .ok _ => exact absurd hid (hresult.1 id)

theorem Resolves.of_candidateConflict (hresult : Resolves requirements candidates result)
    (hkind : ∀ id, ¬KindConflict requirements id)
    (hcandidate : ∃ key, CandidateConflict candidates key) :
    ∃ id version, result = .error (.candidateConflict id version) ∧
      IsLeast {key | CandidateConflict candidates key} (toLex (id, version)) := by
  obtain ⟨key, hkey⟩ := hcandidate
  match result with
  | .error (.packageKindConflict id) => exact absurd hresult.1 (hkind id)
  | .error (.candidateConflict id version) => exact ⟨id, version, rfl, hresult.2⟩
  | .error (.unresolvedPackage _ _) => exact absurd hkey (hresult.2.1 key)
  | .error (.invalidLock _) => exact hresult.elim
  | .ok _ => exact absurd hkey (hresult.2.1 key)

theorem Resolves.not_unresolved {packages : List (ResolvedPackage semver)}
    (hresult : Resolves requirements candidates (.ok packages)) (id : PackageId) :
    ¬Unresolved requirements candidates id := by
  intro hunresolved
  obtain ⟨package, hpackage, hid⟩ := (hresult.2.2.2.1 id).mpr hunresolved.1
  obtain ⟨candidate, hselected, -⟩ := hresult.2.2.2.2 package hpackage
  exact hunresolved.2 candidate (hid ▸ hselected.1)

theorem Resolves.of_unresolved (hresult : Resolves requirements candidates result)
    (hkind : ∀ id, ¬KindConflict requirements id)
    (hcandidate : ∀ key, ¬CandidateConflict candidates key)
    (hunresolved : ∃ id, Unresolved requirements candidates id) :
    ∃ id ranges, result = .error (.unresolvedPackage id ranges) ∧
      IsLeast {id | Unresolved requirements candidates id} id ∧ ranges.Pairwise (· < ·) ∧
      ∀ range, range ∈ ranges ↔ ∃ requirement ∈ requirements, requirement.package = id ∧
        semver.reqText requirement.version = range := by
  obtain ⟨id, hid⟩ := hunresolved
  match result with
  | .error (.packageKindConflict found) => exact absurd hresult.1 (hkind found)
  | .error (.candidateConflict _ _) => exact absurd hresult.2.1 (hcandidate _)
  | .error (.unresolvedPackage found ranges) => exact ⟨found, ranges, rfl, hresult.2.2⟩
  | .error (.invalidLock _) => exact hresult.elim
  | .ok _ => exact absurd hid (hresult.not_unresolved id)

theorem Resolves.of_selected (hresult : Resolves requirements candidates result)
    (hkind : ∀ id, ¬KindConflict requirements id)
    (hcandidate : ∀ key, ¬CandidateConflict candidates key)
    (hresolved : ∀ id, ¬Unresolved requirements candidates id) :
    ∃ packages, result = .ok packages := by
  match result with
  | .error (.packageKindConflict found) => exact absurd hresult.1 (hkind found)
  | .error (.candidateConflict _ _) => exact absurd hresult.2.1 (hcandidate _)
  | .error (.unresolvedPackage _ _) => exact absurd hresult.2.2.1.1 (hresolved _)
  | .error (.invalidLock _) => exact hresult.elim
  | .ok packages => exact ⟨packages, rfl⟩

theorem Selected.resolved_eq {id : PackageId} {first second : PackageCandidate semver}
    (hcandidate : ∀ key, ¬CandidateConflict candidates key)
    (hfirst : Selected requirements candidates id first)
    (hsecond : Selected requirements candidates id second) : first.resolved = second.resolved := by
  have hversion : first.version = second.version :=
    Semver.eq_of_rank (hsecond.2 first hfirst.1) (hfirst.2 second hsecond.1)
  have hpackage : first.package = second.package := hfirst.1.2.1.trans hsecond.1.2.1.symm
  have hkey : first.key = second.key := by
    unfold PackageCandidate.key
    rw [hversion, hpackage]
  have hagree : ¬(first.kind ≠ second.kind ∨ first.checksum ≠ second.checksum) :=
    fun hdiffer ↦ hcandidate second.key
      ⟨first, hfirst.1.1, second, hsecond.1.1, hkey, rfl, hdiffer⟩
  rw [not_or, not_not, not_not] at hagree
  unfold PackageCandidate.resolved
  rw [hagree.1, hpackage, hversion, hagree.2]

theorem Resolves.eq_of_ok {first second : List (ResolvedPackage semver)}
    (hfirst : Resolves requirements candidates (.ok first))
    (hsecond : Resolves requirements candidates (.ok second)) : first = second := by
  have hsubset : ∀ {one two : List (ResolvedPackage semver)},
      Resolves requirements candidates (.ok one) → Resolves requirements candidates (.ok two) →
      ∀ package ∈ one, package ∈ two := by
    intro one two hone htwo package hpackage
    obtain ⟨candidate, hselected, heq⟩ := hone.2.2.2.2 package hpackage
    have hrequired := (hone.2.2.2.1 package.package).mp ⟨package, hpackage, rfl⟩
    obtain ⟨other, hother, hid⟩ := (htwo.2.2.2.1 package.package).mpr hrequired
    obtain ⟨chosen, hchosen, hotherEq⟩ := htwo.2.2.2.2 other hother
    rw [hid] at hchosen
    rw [heq, hselected.resolved_eq hone.2.1 hchosen, ← hotherEq]
    exact hother
  exact eq_of_pairwise_key_lt hfirst.2.2.1 hsecond.2.2.1
    fun package ↦ ⟨hsubset hfirst hsecond package, hsubset hsecond hfirst package⟩

theorem Resolves.unique {other : Except PackageError (List (ResolvedPackage semver))}
    (hresult : Resolves requirements candidates result)
    (hother : Resolves requirements candidates other) : result = other := by
  by_cases hkind : ∃ id, KindConflict requirements id
  · obtain ⟨id, rfl, hleast⟩ := hresult.of_kindConflict hkind
    obtain ⟨found, rfl, hfound⟩ := hother.of_kindConflict hkind
    rw [hleast.unique hfound]
  rw [not_exists] at hkind
  by_cases hcandidate : ∃ key, CandidateConflict candidates key
  · obtain ⟨id, version, rfl, hleast⟩ := hresult.of_candidateConflict hkind hcandidate
    obtain ⟨found, text, rfl, hfound⟩ := hother.of_candidateConflict hkind hcandidate
    have hkey : (id, version) = (found, text) := toLex.injective (hleast.unique hfound)
    rw [(Prod.mk.inj hkey).1, (Prod.mk.inj hkey).2]
  rw [not_exists] at hcandidate
  by_cases hunresolved : ∃ id, Unresolved requirements candidates id
  · obtain ⟨id, ranges, rfl, hleast, hsorted, hranges⟩ :=
      hresult.of_unresolved hkind hcandidate hunresolved
    obtain ⟨found, texts, rfl, hfound, hsortedTexts, htexts⟩ :=
      hother.of_unresolved hkind hcandidate hunresolved
    have hid := hleast.unique hfound
    subst hid
    have hequal : ranges = texts := by
      refine @eq_of_pairwise_key_lt String String _ (fun range ↦ range) _ _ hsorted hsortedTexts
        fun range ↦ ?_
      rw [hranges, htexts]
    rw [hequal]
  rw [not_exists] at hunresolved
  obtain ⟨packages, rfl⟩ := hresult.of_selected hkind hcandidate hunresolved
  obtain ⟨others, rfl⟩ := hother.of_selected hkind hcandidate hunresolved
  rw [hresult.eq_of_ok hother]

end Unique

/-! ### Groups -/

section Groups

variable {requirements : List (PackageRequirement semver)}

variable {id : PackageId} {group : List (PackageRequirement semver)}

theorem mem_entries_grouped : (id, group) ∈ (groupedRequirements requirements).entries ↔
      group ≠ [] ∧ group = requirements.filter fun requirement ↦ requirement.package = id := by
  have hcollect := @mem_entries_collect _ _ _ (fun requirement : PackageRequirement semver ↦
    some requirement.package) requirements group id
  simp only [Option.some.injEq] at hcollect
  exact hcollect

theorem mem_group_iff (hgroup : (id, group) ∈ (groupedRequirements requirements).entries)
    {requirement : PackageRequirement semver} :
    requirement ∈ group ↔ requirement ∈ requirements ∧ requirement.package = id := by
  rw [(mem_entries_grouped.mp hgroup).2, List.mem_filter, decide_eq_true_eq]

theorem exists_group_iff : (∃ group, (id, group) ∈ (groupedRequirements requirements).entries) ↔
      Required requirements id := by
  constructor
  · intro hgroup
    obtain ⟨group, hgroup⟩ := hgroup
    obtain ⟨requirement, hmem⟩ := List.exists_mem_of_ne_nil _ (mem_entries_grouped.mp hgroup).1
    obtain ⟨hrequirement, hid⟩ := (mem_group_iff hgroup).mp hmem
    exact ⟨requirement, hrequirement, hid⟩
  · intro hrequired
    obtain ⟨requirement, hrequirement, hid⟩ := hrequired
    refine ⟨_, mem_entries_grouped.mpr ⟨?_, rfl⟩⟩
    apply List.ne_nil_of_mem
    rw [List.mem_filter, decide_eq_true_eq]
    exact ⟨hrequirement, hid⟩

theorem exists_groupKind (hgroup : (id, group) ∈ (groupedRequirements requirements).entries) :
    ∃ first ∈ group, groupKind group = some first.kind := by
  obtain ⟨first, rest, rfl⟩ := List.exists_cons_of_ne_nil (mem_entries_grouped.mp hgroup).1
  exact ⟨first, List.mem_cons_self, rfl⟩

theorem any_kind_iff (hgroup : (id, group) ∈ (groupedRequirements requirements).entries) :
    (group.any fun requirement ↦ groupKind group ≠ some requirement.kind) = true ↔
      KindConflict requirements id := by
  obtain ⟨first, hfirst, hkind⟩ := exists_groupKind hgroup
  have hfirstMem := (mem_group_iff hgroup).mp hfirst
  simp only [List.any_eq_true, decide_eq_true_eq, hkind, ne_eq, Option.some.injEq]
  constructor
  · intro hany
    obtain ⟨other, hother, hdiffer⟩ := hany
    have hotherMem := (mem_group_iff hgroup).mp hother
    exact ⟨first, hfirstMem.1, other, hotherMem.1, hfirstMem.2, hotherMem.2, hdiffer⟩
  · intro hconflict
    obtain ⟨one, hone, two, htwo, honeId, htwoId, hdiffer⟩ := hconflict
    by_cases hagree : first.kind = one.kind
    · refine ⟨two, (mem_group_iff hgroup).mpr ⟨htwo, htwoId⟩, ?_⟩
      rw [hagree]
      exact hdiffer
    · exact ⟨one, (mem_group_iff hgroup).mpr ⟨hone, honeId⟩, hagree⟩

end Groups

/-! ### The catalogue -/

section Catalogue

def catalogOf (candidates : List (PackageCandidate semver)) : Catalog semver :=
  candidates.foldl Catalog.register ⟨.empty, []⟩

theorem get?_catalogOf (candidates : List (PackageCandidate semver)) (key : PackageId ×ₗ String) :
    (catalogOf candidates).entries.get? key =
      candidates.find? fun candidate ↦ candidate.key = key := by
  induction candidates using List.reverseRecOn with
  | nil => rfl
  | append_singleton before candidate ih =>
    rw [catalogOf, List.foldl_concat, List.find?_append, ← ih]
    show ((catalogOf before).register candidate).entries.get? key = _
    unfold Catalog.register
    by_cases hkey : candidate.key = key
    · rw [hkey]
      cases hprevious : (catalogOf before).entries.get? key with
      | some previous =>
        simp only [Option.some_or]
        split_ifs
        · exact hprevious
        · exact hprevious
      | none =>
        have hself : [candidate].find? (fun other ↦ other.key = key) = some candidate := by
          simp [hkey]
        rw [Option.none_or, hself]
        exact BTreeMap.get?_insert_self ..
    · have hnone : [candidate].find? (fun other ↦ other.key = key) = none := by
        simp [hkey]
      rw [hnone, Option.or_none]
      cases (catalogOf before).entries.get? candidate.key with
      | some previous =>
        simp only
        split_ifs
        · rfl
        · rfl
      | none => exact BTreeMap.get?_insert_of_ne _ (Ne.symm hkey) _

variable {candidate : PackageCandidate semver}

theorem find_key {candidates : List (PackageCandidate semver)} (hmem : candidate ∈ candidates) :
    ∃ first ∈ candidates, first.key = candidate.key ∧
      (catalogOf candidates).entries.get? candidate.key = some first := by
  rw [get?_catalogOf]
  cases hfind : candidates.find? fun other ↦ other.key = candidate.key with
  | none =>
    rw [List.find?_eq_none] at hfind
    exact absurd (decide_eq_true rfl) (hfind candidate hmem)
  | some first =>
    have hkey := List.find?_some hfind
    rw [decide_eq_true_eq] at hkey
    exact ⟨first, List.mem_of_find?_eq_some hfind, hkey, rfl⟩

theorem mem_of_mem_values {candidates : List (PackageCandidate semver)}
    (hmem : candidate ∈ (catalogOf candidates).entries.values) : candidate ∈ candidates := by
  obtain ⟨key, hkey⟩ := (catalogOf candidates).entries.mem_values_iff.mp hmem
  rw [get?_catalogOf] at hkey
  exact List.mem_of_find?_eq_some hkey

theorem candidateConflict_append {before : List (PackageCandidate semver)}
    {key : PackageId ×ₗ String} :
    CandidateConflict (before ++ [candidate]) key ↔ CandidateConflict before key ∨
      (candidate.key = key ∧ ∃ other ∈ before, other.key = key ∧
        (other.kind ≠ candidate.kind ∨ other.checksum ≠ candidate.checksum)) := by
  constructor
  · intro hconflict
    obtain ⟨first, hfirst, second, hsecond, hfirstKey, hsecondKey, hdiffer⟩ := hconflict
    rw [List.mem_append, List.mem_singleton] at hfirst hsecond
    rcases hfirst with hfirst | rfl
    · rcases hsecond with hsecond | rfl
      · exact .inl ⟨first, hfirst, second, hsecond, hfirstKey, hsecondKey, hdiffer⟩
      · exact .inr ⟨hsecondKey, first, hfirst, hfirstKey, hdiffer⟩
    · rcases hsecond with hsecond | rfl
      · exact .inr ⟨hfirstKey, second, hsecond, hsecondKey, hdiffer.imp Ne.symm Ne.symm⟩
      · exact absurd hdiffer (by simp)
  · intro hconflict
    rcases hconflict with hconflict | ⟨hkey, other, hother, hotherKey, hdiffer⟩
    · obtain ⟨first, hfirst, second, hsecond, hrest⟩ := hconflict
      exact ⟨first, List.mem_append_left _ hfirst, second, List.mem_append_left _ hsecond, hrest⟩
    · exact ⟨other, List.mem_append_left _ hother, candidate,
        List.mem_append_right _ (List.mem_singleton_self _), hotherKey, hkey, hdiffer⟩

/-- The keys reported are the keys in conflict: a candidate that differs from any of its key differs
from the first, or the other one does. -/
theorem mem_conflicts_iff (candidates : List (PackageCandidate semver))
    (key : PackageId ×ₗ String) :
    key ∈ (catalogOf candidates).conflicts ↔ CandidateConflict candidates key := by
  induction candidates using List.reverseRecOn with
  | nil =>
    apply iff_of_false List.not_mem_nil
    intro hconflict
    obtain ⟨first, hfirst, -⟩ := hconflict
    exact List.not_mem_nil hfirst
  | append_singleton before candidate ih =>
    rw [candidateConflict_append, ← ih, catalogOf, List.foldl_concat]
    show key ∈ ((catalogOf before).register candidate).conflicts ↔ _
    unfold Catalog.register
    cases hprevious : (catalogOf before).entries.get? candidate.key with
    | none =>
      have hfresh : ∀ other ∈ before, other.key ≠ candidate.key := by
        intro other hother hkey
        rw [get?_catalogOf, List.find?_eq_none] at hprevious
        exact hprevious other hother (decide_eq_true hkey)
      constructor
      · exact .inl
      · intro hconflict
        rcases hconflict with hconflict | ⟨hkey, other, hother, hotherKey, -⟩
        · exact hconflict
        · exact absurd (hotherKey.trans hkey.symm) (hfresh other hother)
    | some previous =>
      rw [get?_catalogOf] at hprevious
      have hmem := List.mem_of_find?_eq_some hprevious
      have hpreviousKey := List.find?_some hprevious
      rw [decide_eq_true_eq] at hpreviousKey
      simp only
      by_cases hdiffer : previous.kind ≠ candidate.kind ∨ previous.checksum ≠ candidate.checksum
      · rw [if_pos hdiffer, List.mem_append, List.mem_singleton]
        constructor
        · intro hreported
          rcases hreported with hreported | rfl
          · exact .inl hreported
          · exact .inr ⟨rfl, previous, hmem, hpreviousKey, hdiffer⟩
        · intro hconflict
          rcases hconflict with hconflict | ⟨hkey, -⟩
          · exact .inl hconflict
          · exact .inr hkey.symm
      · rw [if_neg hdiffer]
        constructor
        · exact .inl
        · intro hconflict
          rcases hconflict with hconflict | ⟨hkey, other, hother, hotherKey, hother'⟩
          · exact hconflict
          · rw [not_or, not_not, not_not] at hdiffer
            rw [ih]
            refine ⟨other, hother, previous, hmem, hotherKey, hpreviousKey.trans hkey, ?_⟩
            rw [hdiffer.1, hdiffer.2]
            exact hother'

end Catalogue

/-! ### Selections -/

section Select

variable {requirements : List (PackageRequirement semver)}
  {candidates : List (PackageCandidate semver)} {id : PackageId}
  {group : List (PackageRequirement semver)}

/-- The code's filter keeps the eligible candidates. Assumes: no kind conflict of the package. -/
theorem satisfies_iff (hgroup : (id, group) ∈ (groupedRequirements requirements).entries)
    (hkind : ¬KindConflict requirements id) {candidate : PackageCandidate semver}
    (hmem : candidate ∈ candidates) :
    candidate.satisfies id group = true ↔ Eligible requirements candidates id candidate := by
  obtain ⟨first, hfirst, hgroupKind⟩ := exists_groupKind hgroup
  have hfirstMem := (mem_group_iff hgroup).mp hfirst
  simp only [PackageCandidate.satisfies, Bool.and_eq_true, decide_eq_true_eq, hgroupKind,
    Option.some.injEq, List.all_eq_true]
  constructor
  · intro hsatisfies
    obtain ⟨⟨hid, hkindEq⟩, hall⟩ := hsatisfies
    refine ⟨hmem, hid, fun requirement hrequirement hpackage ↦ ⟨?_, ?_⟩⟩
    · by_contra hdiffer
      rw [← hkindEq] at hdiffer
      exact hkind ⟨requirement, hrequirement, first, hfirstMem.1, hpackage, hfirstMem.2, hdiffer⟩
    · exact hall requirement ((mem_group_iff hgroup).mpr ⟨hrequirement, hpackage⟩)
  · intro heligible
    obtain ⟨-, hid, hall⟩ := heligible
    refine ⟨⟨hid, (hall first hfirstMem.1 hfirstMem.2).1⟩, fun requirement hrequirement ↦ ?_⟩
    have hrequirementMem := (mem_group_iff hgroup).mp hrequirement
    exact (hall requirement hrequirementMem.1 hrequirementMem.2).2

/-- An eligible candidate stands in the catalogue by its first of the same version. Assumes: no
conflict of candidates. -/
theorem exists_catalogued (hcandidate : ∀ key, ¬CandidateConflict candidates key)
    {candidate : PackageCandidate semver}
    (heligible : Eligible requirements candidates id candidate) :
    ∃ first ∈ (catalogOf candidates).entries.values,
      Eligible requirements candidates id first ∧ first.version = candidate.version := by
  obtain ⟨hmem, hid, hall⟩ := heligible
  obtain ⟨first, hfirst, hkey, hget⟩ := find_key hmem
  have hpair := toLex.injective hkey
  have hpackage : first.package = candidate.package := (Prod.mk.inj hpair).1
  have hversion : first.version = candidate.version :=
    semver.toText_injective (Prod.mk.inj hpair).2
  have hkindEq : first.kind = candidate.kind := by
    by_contra hdiffer
    exact hcandidate candidate.key ⟨first, hfirst, candidate, hmem, hkey, rfl, .inl hdiffer⟩
  refine ⟨first, (catalogOf candidates).entries.mem_values_iff.mpr ⟨_, hget⟩, ⟨hfirst,
    hpackage.trans hid, ?_⟩, hversion⟩
  intro requirement hrequirement hrequired
  rw [hkindEq, hversion]
  exact hall requirement hrequirement hrequired

theorem selectPackage_spec (hgroup : (id, group) ∈ (groupedRequirements requirements).entries)
    (hkind : ¬KindConflict requirements id)
    (hcandidate : ∀ key, ¬CandidateConflict candidates key) :
    (∃ candidate, Selected requirements candidates id candidate ∧
      selectPackage (catalogOf candidates).entries.values (id, group) = .ok candidate.resolved) ∨
    ((∀ candidate, ¬Eligible requirements candidates id candidate) ∧
      selectPackage (catalogOf candidates).entries.values (id, group) =
        .error (.unresolvedPackage id
          (sortDedup (group.map fun requirement ↦ semver.reqText requirement.version)))) := by
  unfold selectPackage
  cases hbest : maxBy (fun first second : PackageCandidate semver ↦
      semver.rank first.version second.version)
    ((catalogOf candidates).entries.values.filter fun candidate ↦ candidate.satisfies id group) with
  | none =>
    right
    refine ⟨fun candidate heligible ↦ ?_, rfl⟩
    obtain ⟨first, hfirst, hfirstEligible, -⟩ := exists_catalogued hcandidate heligible
    have hempty := maxBy_eq_none_iff.mp hbest
    have hmem : first ∈ (catalogOf candidates).entries.values.filter
        fun candidate ↦ candidate.satisfies id group := by
      rw [List.mem_filter]
      exact ⟨hfirst, (satisfies_iff hgroup hkind (mem_of_mem_values hfirst)).mpr hfirstEligible⟩
    rw [hempty] at hmem
    exact List.not_mem_nil hmem
  | some best =>
    left
    obtain ⟨hmem, hgreatest⟩ := maxBy_spec
      (fun a b ↦ semver.swap_rank a.version b.version)
      (fun a b c ↦ semver.trans_rank a.version b.version c.version) hbest
    rw [List.mem_filter] at hmem
    have heligible := (satisfies_iff hgroup hkind (mem_of_mem_values hmem.1)).mp hmem.2
    refine ⟨best, ⟨heligible, fun other hother ↦ ?_⟩, ?_⟩
    · obtain ⟨first, hfirst, hfirstEligible, hversion⟩ := exists_catalogued hcandidate hother
      rw [← hversion]
      apply hgreatest
      rw [List.mem_filter]
      exact ⟨hfirst, (satisfies_iff hgroup hkind (mem_of_mem_values hfirst)).mpr hfirstEligible⟩
    · simp only
      rw [PackageCandidate.resolved, heligible.2.1]

end Select

/-! ### The code resolves -/

section Resolve

variable {requirements : List (PackageRequirement semver)}
  {candidates : List (PackageCandidate semver)}

theorem isLeast_kindConflict {entry : PackageId × List (PackageRequirement semver)}
    (hfind : (groupedRequirements requirements).entries.find? (fun entry ↦
      entry.2.any fun requirement ↦ groupKind entry.2 ≠ some requirement.kind) = some entry) :
    IsLeast {id | KindConflict requirements id} entry.1 := by
  have hentry := List.mem_of_find?_eq_some hfind
  have htest := (List.find?_eq_some_iff_append.mp hfind).1
  refine ⟨(any_kind_iff hentry).mp htest, fun id hconflict ↦ ?_⟩
  have hfirst := hconflict
  obtain ⟨first, hfirst, -, -, hid, -⟩ := hfirst
  obtain ⟨group, hgroup⟩ := exists_group_iff.mpr ⟨first, hfirst, hid⟩
  exact key_le_of_find? (groupedRequirements requirements).ascending hfind hgroup
    ((any_kind_iff hgroup).mpr hconflict)

theorem not_kindConflict (hfind : (groupedRequirements requirements).entries.find? (fun entry ↦
      entry.2.any fun requirement ↦ groupKind entry.2 ≠ some requirement.kind) = none)
    (id : PackageId) : ¬KindConflict requirements id := by
  intro hconflict
  have hfirst := hconflict
  obtain ⟨first, hfirst, -, -, hid, -⟩ := hfirst
  obtain ⟨group, hgroup⟩ := exists_group_iff.mpr ⟨first, hfirst, hid⟩
  rw [List.find?_eq_none] at hfind
  exact hfind _ hgroup ((any_kind_iff hgroup).mpr hconflict)

theorem isLeast_candidateConflict {key : PackageId ×ₗ String}
    (hhead : (sortDedup (catalogOf candidates).conflicts).head? = some key) :
    IsLeast {key | CandidateConflict candidates key} key := by
  have hmem : ∀ other, other ∈ sortDedup (catalogOf candidates).conflicts ↔
      CandidateConflict candidates other := by
    intro other
    rw [mem_sortDedup, mem_conflicts_iff]
  refine ⟨(hmem key).mp (List.mem_of_mem_head? hhead), fun other hother ↦ ?_⟩
  have hsorted : (sortDedup (catalogOf candidates).conflicts).Pairwise (· ≤ ·) :=
    Finset.pairwise_sort _ _
  obtain ⟨rest, hrest⟩ := List.head?_eq_some_iff.mp hhead
  have hin := (hmem other).mpr hother
  rw [hrest] at hsorted hin
  rcases List.mem_cons.mp hin with rfl | hin
  · exact le_rfl
  · exact List.rel_of_pairwise_cons hsorted hin

theorem not_candidateConflict (hhead : (sortDedup (catalogOf candidates).conflicts).head? = none)
    (key : PackageId ×ₗ String) : ¬CandidateConflict candidates key := by
  intro hconflict
  rw [← mem_conflicts_iff, ← mem_sortDedup, List.head?_eq_none_iff.mp hhead] at hconflict
  exact List.not_mem_nil hconflict

/-- The selections of all groups are a resolution. Assumes: no conflicts. -/
theorem resolves_mapM (hkind : ∀ id, ¬KindConflict requirements id)
    (hcandidate : ∀ key, ¬CandidateConflict candidates key) :
    Resolves requirements candidates ((groupedRequirements requirements).entries.mapM
      (selectPackage (catalogOf candidates).entries.values)) := by
  have hascending := (groupedRequirements requirements).ascending
  have hentries := fun id : PackageId ↦ @exists_group_iff _ requirements id
  have hselect := fun (id : PackageId) (group : List (PackageRequirement semver))
    (hgroup : (id, group) ∈ (groupedRequirements requirements).entries) ↦
      selectPackage_spec hgroup (hkind id) hcandidate
  cases hmap : (groupedRequirements requirements).entries.mapM
      (selectPackage (catalogOf candidates).entries.values) with
  | ok packages =>
    have hpackage : ∀ entry ∈ (groupedRequirements requirements).entries, ∀ package,
        selectPackage (catalogOf candidates).entries.values entry = .ok package →
        package.package = entry.1 ∧ ∃ candidate,
          Selected requirements candidates entry.1 candidate ∧ package = candidate.resolved := by
      intro entry hentry package hok
      rcases hselect entry.1 entry.2 hentry with ⟨candidate, hselected, heq⟩ | ⟨-, heq⟩
      · have hresolved := Except.ok.inj (hok.symm.trans heq)
        rw [hresolved]
        exact ⟨hselected.1.2.1, candidate, hselected, rfl⟩
      · exact nomatch hok.symm.trans heq
    have hkeys : packages.map ResolvedPackage.package =
        (groupedRequirements requirements).keys := by
      apply map_eq_of_mapM_eq_ok hmap
      exact fun entry hentry package hok ↦ (hpackage entry hentry package hok).1
    refine ⟨hkind, hcandidate, ?_, fun id ↦ ?_, fun package hmem ↦ ?_⟩
    · rw [← List.pairwise_map, hkeys]
      exact (groupedRequirements requirements).pairwise_keys
    · rw [← hentries, ← List.mem_map, hkeys]
      unfold BTreeMap.keys
      rw [List.mem_map]
      constructor
      · intro hentry
        obtain ⟨entry, hentry, hid⟩ := hentry
        exact ⟨entry.2, hid ▸ hentry⟩
      · intro hgroup
        obtain ⟨group, hgroup⟩ := hgroup
        exact ⟨_, hgroup, rfl⟩
    · obtain ⟨entry, hentry, hok⟩ := exists_of_mem_mapM hmap hmem
      obtain ⟨hid, hselected⟩ := hpackage entry hentry package hok
      rw [hid]
      exact hselected
  | error failure =>
    obtain ⟨before, entry, after, hsplit, hbefore, hfails⟩ := exists_of_mapM_eq_error hmap
    have hentry : entry ∈ (groupedRequirements requirements).entries := by
      rw [hsplit]
      exact List.mem_append_right _ List.mem_cons_self
    rcases hselect entry.1 entry.2 hentry with ⟨candidate, -, heq⟩ | ⟨hnone, heq⟩
    · exact nomatch hfails.symm.trans heq
    rw [Except.error.inj (hfails.symm.trans heq)]
    refine ⟨hkind, hcandidate, ⟨⟨(hentries _).mp ⟨_, hentry⟩, hnone⟩, fun id hid ↦ ?_⟩,
      pairwise_sortDedup _, fun range ↦ ?_⟩
    · obtain ⟨group, hgroup⟩ := (hentries id).mpr hid.1
      rw [hsplit] at hascending
      rw [hsplit, List.mem_append, List.mem_cons] at hgroup
      rcases hgroup with hgroup | rfl | hgroup
      · obtain ⟨package, hok⟩ := hbefore _ hgroup
        have hmem : (id, group) ∈ (groupedRequirements requirements).entries := by
          rw [hsplit]
          exact List.mem_append_left _ hgroup
        rcases hselect id group hmem with ⟨candidate, hselected, -⟩ | ⟨-, herror⟩
        · exact absurd hselected.1 (hid.2 candidate)
        · exact nomatch hok.symm.trans herror
      · exact le_rfl
      · exact (List.rel_of_pairwise_cons (List.pairwise_append.mp hascending).2.1 hgroup).le
    · rw [mem_sortDedup, List.mem_map]
      constructor
      · intro hrange
        obtain ⟨requirement, hrequirement, htext⟩ := hrange
        have hmem := (mem_group_iff hentry).mp hrequirement
        exact ⟨requirement, hmem.1, hmem.2, htext⟩
      · intro hrange
        obtain ⟨requirement, hrequirement, hid, htext⟩ := hrange
        exact ⟨requirement, (mem_group_iff hentry).mpr ⟨hrequirement, hid⟩, htext⟩

/-- `resolvePackages` resolves. -/
theorem resolves_resolvePackages (requirements : List (PackageRequirement semver))
    (candidates : List (PackageCandidate semver)) :
    Resolves requirements candidates (resolvePackages requirements candidates) := by
  unfold resolvePackages
  simp only
  cases hgroup : (groupedRequirements requirements).entries.find? (fun entry ↦
      entry.2.any fun requirement ↦ groupKind entry.2 ≠ some requirement.kind) with
  | some entry => exact isLeast_kindConflict hgroup
  | none =>
    have hkind := not_kindConflict hgroup
    have hcatalog : candidates.foldl Catalog.register ⟨.empty, []⟩ = catalogOf candidates := rfl
    simp only [hcatalog]
    cases hhead : (sortDedup (catalogOf candidates).conflicts).head? with
    | some key => exact ⟨hkind, isLeast_candidateConflict hhead⟩
    | none => exact resolves_mapM hkind (not_candidateConflict hhead)

/-- Resolving speaks of membership only. -/
theorem Resolves.congr {others : List (PackageRequirement semver)}
    {offered : List (PackageCandidate semver)}
    {result : Except PackageError (List (ResolvedPackage semver))}
    (hrequirements : ∀ requirement, requirement ∈ requirements ↔ requirement ∈ others)
    (hcandidates : ∀ candidate, candidate ∈ candidates ↔ candidate ∈ offered)
    (hresult : Resolves requirements candidates result) : Resolves others offered result := by
  have hrequired : Required requirements = Required others := by
    ext id
    simp only [Required, hrequirements]
  have hkind : KindConflict requirements = KindConflict others := by
    ext id
    simp only [KindConflict, hrequirements]
  have hcandidate : CandidateConflict candidates = CandidateConflict offered := by
    ext key
    simp only [CandidateConflict, hcandidates]
  have heligible : Eligible requirements candidates = Eligible others offered := by
    ext id candidate
    simp only [Eligible, hrequirements, hcandidates]
  have hselected : Selected requirements candidates = Selected others offered := by
    ext id candidate
    simp only [Selected, heligible]
  have hunresolved : Unresolved requirements candidates = Unresolved others offered := by
    ext id
    simp only [Unresolved, heligible, hrequired]
  match result with
  | .error (.packageKindConflict id) =>
    unfold Resolves at hresult ⊢
    rw [← hkind]
    exact hresult
  | .error (.candidateConflict id version) =>
    unfold Resolves at hresult ⊢
    rw [← hkind, ← hcandidate]
    exact hresult
  | .error (.unresolvedPackage id ranges) =>
    unfold Resolves at hresult ⊢
    simp only [← hkind, ← hcandidate, ← hunresolved, ← hrequirements]
    exact hresult
  | .error (.invalidLock _) => exact hresult
  | .ok packages =>
    unfold Resolves at hresult ⊢
    rw [← hkind, ← hcandidate, ← hrequired, ← hselected]
    exact hresult

theorem resolvePackages_congr {others : List (PackageRequirement semver)}
    {offered : List (PackageCandidate semver)}
    (hrequirements : ∀ requirement, requirement ∈ requirements ↔ requirement ∈ others)
    (hcandidates : ∀ candidate, candidate ∈ candidates ↔ candidate ∈ offered) :
    resolvePackages requirements candidates = resolvePackages others offered :=
  ((resolves_resolvePackages requirements candidates).congr hrequirements hcandidates).unique
    (resolves_resolvePackages others offered)

end Resolve

/-! ### The lock of a resolution -/

section Locks

variable {requirements : List (PackageRequirement semver)}
  {candidates : List (PackageCandidate semver)} {packages : List (ResolvedPackage semver)}

variable {lock : CampaignLock semver}

theorem validateCampaignLock_of_ascending
    (hascending : lock.packages.Pairwise fun first second ↦ first.package < second.package) :
    validateCampaignLock lock = .ok () := by
  unfold validateCampaignLock
  rw [if_neg]
  intro hany
  rw [List.any_eq_true] at hany
  obtain ⟨pair, hpair, hle⟩ := hany
  rw [decide_eq_true_eq] at hle
  exact absurd (key_lt_of_mem_zip_tail hascending hpair) (not_lt.mpr hle)

theorem get?_lockedPackages
    (hascending : lock.packages.Pairwise fun first second ↦ first.package < second.package)
    {id : PackageId} {package : ResolvedPackage semver} :
    (lockedPackages lock).get? id = some package ↔
      package ∈ lock.packages ∧ package.package = id := by
  have hlocked : lockedPackages lock =
      BTreeMap.ofList (lock.packages.map fun package ↦ (package.package, package)) := by
    unfold lockedPackages BTreeMap.ofList
    rw [List.foldl_map]
  have hnodup : ((lock.packages.map fun package ↦ (package.package, package)).map
      Prod.fst).Nodup := by
    rw [List.map_map]
    exact (List.pairwise_map.mpr hascending).imp ne_of_lt
  rw [hlocked]
  constructor
  · intro hget
    have hmem := BTreeMap.mem_of_get?_ofList hget
    rw [List.mem_map] at hmem
    obtain ⟨found, hfound, hpair⟩ := hmem
    rw [← (Prod.mk.inj hpair).1, ← (Prod.mk.inj hpair).2]
    exact ⟨hfound, rfl⟩
  · intro hpackage
    obtain ⟨hmem, rfl⟩ := hpackage
    exact BTreeMap.get?_foldl_insert_of_mem _ hnodup (List.mem_map_of_mem hmem)

theorem validateCoverage_of_resolves
    (hresolves : Resolves requirements candidates (.ok lock.packages)) :
    validateCoverage requirements lock = .ok () := by
  obtain ⟨-, -, hascending, hrequired, hselected⟩ := hresolves
  have hlocked := fun id package ↦ @get?_lockedPackages _ lock hascending id package
  unfold validateCoverage
  simp only
  rw [forM_eq_ok_iff]
  intro id hid
  rw [mem_sortDedup, List.mem_append, BTreeMap.mem_keys_iff, BTreeMap.mem_keys_iff] at hid
  have hcovered : Required requirements id := by
    rcases hid with ⟨group, hgroup⟩ | ⟨package, hpackage⟩
    · exact exists_group_iff.mp ⟨group, (groupedRequirements requirements).mem_entries_iff.mpr
        hgroup⟩
    · exact (hrequired id).mp ⟨package, (hlocked id package).mp hpackage⟩
  obtain ⟨group, hgroup⟩ := exists_group_iff.mpr hcovered
  obtain ⟨package, hpackage, hpackageId⟩ := (hrequired id).mpr hcovered
  obtain ⟨candidate, hchosen, heq⟩ := hselected package hpackage
  have hget := (groupedRequirements requirements).mem_entries_iff.mp hgroup
  have hgetLocked := (hlocked id package).mpr ⟨hpackage, hpackageId⟩
  unfold coverId
  rw [hget, hgetLocked]
  simp only
  rw [if_neg]
  intro hany
  rw [List.any_eq_true] at hany
  obtain ⟨requirement, hrequirement, hfails⟩ := hany
  obtain ⟨hmem, hrequirementId⟩ := (mem_group_iff hgroup).mp hrequirement
  obtain ⟨hkind, hmatches⟩ :=
    hchosen.1.2.2 requirement hmem (hrequirementId.trans hpackageId.symm)
  have hpackageKind : package.kind = candidate.kind := congrArg ResolvedPackage.kind heq
  have hpackageVersion : package.version = candidate.version :=
    congrArg ResolvedPackage.version heq
  simp [hkind, hmatches, hpackageKind, hpackageVersion] at hfails

theorem packages_of_makeCampaignLock {α : Type}
    {assetsLockDigest : AssetsLock α → Except PackageError Digest} {assets : AssetsLock α}
    (hmake : makeCampaignLock assetsLockDigest requirements candidates assets = .ok lock) :
    resolvePackages requirements candidates = .ok lock.packages := by
  unfold makeCampaignLock at hmake
  cases hassets : validateAssetsLock assets with
  | error failure =>
    rw [hassets] at hmake
    exact nomatch hmake
  | ok _ =>
    rw [hassets] at hmake
    simp only [Except.bind] at hmake
    cases hpackages : resolvePackages requirements candidates with
    | error failure =>
      rw [hpackages] at hmake
      exact nomatch hmake
    | ok packages =>
      rw [hpackages] at hmake
      simp only at hmake
      cases hdigest : assetsLockDigest assets with
      | error failure =>
        rw [hdigest] at hmake
        exact nomatch hmake
      | ok digest =>
        rw [hdigest] at hmake
        rw [← Except.ok.inj hmake]

end Locks

/-- Requirements and candidates resolve alike in any order and with any repetitions; the result is
the resolution, and its lock passes both checks. -/
theorem packages_resolved {semver : Semver} (requirements : List (PackageRequirement semver))
    (candidates : List (PackageCandidate semver)) :
    (∀ (others : List (PackageRequirement semver)) (offered : List (PackageCandidate semver)),
      (∀ requirement, requirement ∈ others ↔ requirement ∈ requirements) →
      (∀ candidate, candidate ∈ offered ↔ candidate ∈ candidates) →
      resolvePackages others offered = resolvePackages requirements candidates) ∧
    Resolves requirements candidates (resolvePackages requirements candidates) ∧
    (∀ packages, resolvePackages requirements candidates = .ok packages →
      ∀ (assetsLock : Digest) (note : Option String),
        validateCampaignLock ⟨packages, assetsLock, note⟩ = .ok () ∧
        validateCoverage requirements ⟨packages, assetsLock, note⟩ = .ok ()) ∧
    (∀ (α : Type) (assetsLockDigest : AssetsLock α → Except PackageError Digest)
      (assets : AssetsLock α) (lock : CampaignLock semver),
      makeCampaignLock assetsLockDigest requirements candidates assets = .ok lock →
        validateCampaignLock lock = .ok () ∧ validateCoverage requirements lock = .ok ()) := by
  have hresolves := resolves_resolvePackages requirements candidates
  have hlock : ∀ lock : CampaignLock semver,
      resolvePackages requirements candidates = .ok lock.packages →
      validateCampaignLock lock = .ok () ∧ validateCoverage requirements lock = .ok () := by
    intro lock hpackages
    rw [hpackages] at hresolves
    exact ⟨validateCampaignLock_of_ascending hresolves.2.2.1,
      validateCoverage_of_resolves hresolves⟩
  refine ⟨fun others offered hrequirements hcandidates ↦
    resolvePackages_congr hrequirements hcandidates, hresolves, ?_, ?_⟩
  · exact fun packages hpackages assetsLock note ↦ hlock ⟨packages, assetsLock, note⟩ hpackages
  · exact fun α assetsLockDigest assets lock hmake ↦
      hlock lock (packages_of_makeCampaignLock hmake)

/-- Two ranges of one package, the first one twice. -/
def sampleRequirements : List (PackageRequirement .released) :=
  [⟨.module, "base", "1.2.0"⟩, ⟨.module, "base", "1.9.0"⟩, ⟨.module, "base", "1.2.0"⟩]

/-- The tenth minor version in two builds, below it the ninth, and another package. -/
def sampleCandidates : List (PackageCandidate .released) :=
  let checksum := Vector.replicate 32 0
  [⟨.module, "base", "1.10.0+a", checksum⟩, ⟨.module, "base", "1.10.0+b", checksum⟩,
    ⟨.module, "base", "1.9.7", checksum⟩, ⟨.module, "arms", "2.0.0", checksum⟩]

/-- The later build of the tenth minor version is selected, from any arrangement of the sample. -/
theorem packages_resolved_numbered :
    resolvePackages sampleRequirements.reverse (sampleCandidates ++ sampleCandidates) =
      resolvePackages sampleRequirements sampleCandidates ∧
    ∃ packages, resolvePackages sampleRequirements sampleCandidates = .ok packages ∧
      packages.map ResolvedPackage.version = ["1.10.0+b"] ∧
      validateCampaignLock ⟨packages, Vector.replicate 32 1, none⟩ = .ok () := by
  obtain ⟨hsame, -, hlocks, -⟩ := packages_resolved sampleRequirements sampleCandidates
  refine ⟨hsame _ _ (fun _ ↦ List.mem_reverse) fun _ ↦ ?_, ?_⟩
  · rw [List.mem_append, or_self]
  · let texts (packages : List (ResolvedPackage .released)) : List String :=
      packages.map ResolvedPackage.version
    have hversions : (resolvePackages sampleRequirements sampleCandidates).toOption.map texts =
        some ["1.10.0+b"] := by decide +kernel
    obtain ⟨packages, hpackages, hselected⟩ := Option.map_eq_some_iff.mp hversions
    cases hresolved : resolvePackages sampleRequirements sampleCandidates with
    | error fault =>
      rw [hresolved] at hpackages
      cases hpackages
    | ok found =>
      rw [hresolved] at hpackages
      cases hpackages
      exact ⟨packages, rfl, hselected, (hlocks packages hresolved _ none).1⟩

end Crpg.Data
