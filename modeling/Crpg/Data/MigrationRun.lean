import Crpg.Data.Migration

/-!
# What migrations do

`parseTag_eq_ok_iff` says which tags a registry reads. `dispatch_cases` says what dispatch does on
any registry: it refuses the value and leaves it, runs the family's steps one after another from the
version of the tag to the current one (`Chain`), or stops as malformed at the first step that fails
or breaks its tag.

`migrated_cases` inverts a migration on the production registry. Its steps write members without
looking whether the value holds them, so an authored member of such a name is lost: `Overwrites`
names when, and `migrations_preserve` that it is exactly then.
-/

set_option autoImplicit false

namespace Crpg.Data

open Crpg.Core Crpg.Lib

/-! ### Versions and tags -/

def decimalValue (text : List Char) : ℕ :=
  text.foldl (fun value digit ↦ value * 10 + (digit.toNat - 48)) 0

structure CanonicalDecimal (text : List Char) (value : ℕ) : Prop where
  nonempty : text ≠ []
  digits : text.all isDigit = true
  leading : 1 < text.length → text.head? ≠ some '0'
  value_eq : decimalValue text = value

theorem le_foldl_decimal (text : List Char) (value : ℕ) :
    value ≤ text.foldl (fun value digit ↦ value * 10 + (digit.toNat - 48)) value := by
  induction text generalizing value with
  | nil => exact le_rfl
  | cons digit rest ih => exact (by omega : value ≤ value * 10 + (digit.toNat - 48)).trans (ih _)

/-- Reading digits with an overflow check gives the number when it fits. -/
theorem foldl_versionStep_eq_some_iff (text : List Char) {start value : ℕ} (hstart : start ≤ u32Max) :
    text.foldl versionStep (some start) = some value ↔
      text.foldl (fun value digit ↦ value * 10 + (digit.toNat - 48)) start = value ∧
        value ≤ u32Max := by
  induction text generalizing start with
  | nil =>
    simp only [List.foldl_nil, Option.some.injEq]
    exact ⟨fun heq ↦ ⟨heq, heq ▸ hstart⟩, fun heq ↦ heq.1⟩
  | cons digit rest ih =>
    simp only [List.foldl_cons, versionStep, Option.bind_some]
    by_cases hlarge : u32Max < start * 10 + (digit.toNat - 48)
    · rw [if_pos hlarge]
      have hnone : rest.foldl versionStep none = none := by
        clear ih
        induction rest with
        | nil => rfl
        | cons _ _ ih => exact ih
      rw [hnone]
      refine ⟨nofun, fun ⟨hvalue, hfits⟩ ↦ ?_⟩
      have hle := le_foldl_decimal rest (start * 10 + (digit.toNat - 48))
      omega
    · rw [if_neg hlarge]
      exact ih (not_lt.mp hlarge)

/-- Each digit that follows a number multiplies it by ten. -/
theorem mul_pow_le_foldl_decimal (text : List Char) (start : ℕ) : start * 10 ^ text.length ≤
      text.foldl (fun value digit ↦ value * 10 + (digit.toNat - 48)) start := by
  induction text generalizing start with
  | nil => simp
  | cons digit rest ih =>
    calc start * 10 ^ (digit :: rest).length = start * 10 * 10 ^ rest.length := by
          rw [List.length_cons, pow_succ, Nat.mul_comm (10 ^ rest.length), Nat.mul_assoc]
      _ ≤ (start * 10 + (digit.toNat - 48)) * 10 ^ rest.length :=
          Nat.mul_le_mul_right _ (Nat.le_add_right _ _)
      _ ≤ _ := ih _

theorem isDigit_iff {char : Char} : isDigit char = true ↔ 48 ≤ char.toNat ∧ char.toNat ≤ 57 := by
  simp only [isDigit, Bool.and_eq_true, decide_eq_true_eq]
  exact Iff.rfl

variable {text : List Char} {version index : ℕ} {tag : String}

/-- A canonical decimal that fits `u32` has at most ten digits. -/
theorem CanonicalDecimal.length_le {value : ℕ} (hcanonical : CanonicalDecimal text value)
    (hfits : value ≤ u32Max) : text.length ≤ 10 := by
  by_contra hlong
  rw [not_le] at hlong
  obtain ⟨hnonempty, hdigits, hleading, hvalue⟩ := hcanonical
  cases text with
  | nil => exact hnonempty rfl
  | cons digit rest =>
    have hdigit := isDigit_iff.mp (List.all_eq_true.mp hdigits digit (List.mem_cons_self ..))
    have hnotZero : digit ≠ '0' := fun hzero ↦ hleading (by omega) (by rw [hzero]; rfl)
    have hpositive : 1 ≤ digit.toNat - 48 := by
      have hne : digit.toNat ≠ 48 := fun heq ↦ hnotZero (Char.toNat_inj.mp heq)
      omega
    have hgrows := mul_pow_le_foldl_decimal rest (digit.toNat - 48)
    have hpow : 10 ^ 10 ≤ 10 ^ rest.length :=
      Nat.pow_le_pow_right (by decide) (by rw [List.length_cons] at hlong; omega)
    have hscaled : 10 ^ rest.length ≤ (digit.toNat - 48) * 10 ^ rest.length :=
      Nat.le_mul_of_pos_left _ hpositive
    have hdecimal : decimalValue (digit :: rest) = rest.foldl
        (fun value digit ↦ value * 10 + (digit.toNat - 48)) (digit.toNat - 48) := by
      rw [decimalValue, List.foldl_cons, Nat.zero_mul, Nat.zero_add]
    have hmax : u32Max = 4294967295 := rfl
    omega

/-- The versions are the canonical decimals from one to `u32::MAX`. -/
theorem parseVersion_eq_some_iff : parseVersion text = some version ↔
      CanonicalDecimal text version ∧ 1 ≤ version ∧ version ≤ u32Max := by
  have hfold : ∀ value, text.foldl versionStep (some 0) = some value ↔
      decimalValue text = value ∧ value ≤ u32Max :=
    fun _ ↦ foldl_versionStep_eq_some_iff text (Nat.zero_le u32Max)
  constructor
  · intro hparse
    unfold parseVersion at hparse
    split_ifs at hparse with hempty hzero hlong
    simp only [Bool.or_eq_true, Bool.not_eq_true', not_or, Bool.not_eq_false,
      Bool.not_eq_true, List.isEmpty_eq_false_iff] at hempty
    split at hparse
    · cases hparse
    · cases hparse
    · rename_i found hnonzero hfound
      cases hparse
      obtain ⟨hvalue, hfits⟩ := (hfold _).mp hfound
      refine ⟨⟨hempty.1, hempty.2, fun hlength hhead ↦ hzero ⟨hlength, hhead⟩, hvalue⟩,
        Nat.one_le_iff_ne_zero.mpr fun hversion ↦ ?_, hfits⟩
      subst hversion
      exact hnonzero rfl
  · rintro ⟨hcanonical, hpositive, hfits⟩
    have hlength := hcanonical.length_le hfits
    obtain ⟨hnonempty, hdigits, hleading, hvalue⟩ := hcanonical
    unfold parseVersion
    rw [if_neg (by simp [hnonempty, hdigits]), if_neg fun hboth ↦ hleading hboth.1 hboth.2,
      if_neg (not_lt.mpr hlength), (hfold version).mpr ⟨hvalue, hfits⟩]
    obtain ⟨version, rfl⟩ := Nat.exists_eq_succ_of_ne_zero (Nat.one_le_iff_ne_zero.mp hpositive)
    rfl

/-- What follows the first part of a text that holds a character starts with it. -/
theorem dropWhile_eq_cons {char : Char} (hmem : char ∈ text) :
    text.dropWhile (· ≠ char) = char :: (text.dropWhile (· ≠ char)).tail := by
  induction text with
  | nil => cases hmem
  | cons head rest ih =>
    by_cases hhead : head = char
    · rw [List.dropWhile_cons_of_neg (by simp [hhead]), hhead, List.tail_cons]
    · rw [List.dropWhile_cons_of_pos (by simp [hhead])]
      exact ih ((List.mem_cons.mp hmem).resolve_left (Ne.symm hhead))

/-- The tags a registry reads: the name of a registered type, a slash, and the canonical decimal of
a version. The type is the first of its name, and a name with a slash is in no tag. -/
theorem parseTag_eq_ok_iff {registry : Registry} :
    parseTag tag registry = .ok (index, version) ↔ ∃ family text,
      registry.findIdx? (fun other ↦ other.schemaType = family.schemaType) = some index ∧
        registry[index]? = some family ∧ '/' ∉ family.schemaType.toList ∧
        tag.toList = family.schemaType.toList ++ '/' :: text ∧ CanonicalDecimal text version ∧
        1 ≤ version ∧ version ≤ u32Max := by
  constructor
  · intro hparse
    unfold parseTag at hparse
    split_ifs at hparse with hcount
    rw [ne_eq, not_not] at hcount
    dsimp only at hparse
    split at hparse
    · cases hparse
    · rename_i found hfound
      split at hparse
      · cases hparse
      · rename_i parsed hversion
        cases hparse
        obtain ⟨hindex, htype, -⟩ := List.findIdx?_eq_some_iff_getElem.mp hfound
        rw [decide_eq_true_eq] at htype
        have htoList : registry[index].schemaType.toList = tag.toList.takeWhile (· ≠ '/') := by
          rw [htype, String.toList_ofList]
        have hsplit := List.takeWhile_append_dropWhile (p := (· ≠ '/')) (l := tag.toList)
        have hslash : tag.toList.dropWhile (· ≠ '/') =
            '/' :: (tag.toList.dropWhile (· ≠ '/')).tail :=
          dropWhile_eq_cons (List.count_pos_iff.mp (by omega))
        refine ⟨registry[index], (tag.toList.dropWhile (· ≠ '/')).tail, ?_,
          List.getElem?_eq_getElem hindex, ?_, ?_, parseVersion_eq_some_iff.mp hversion⟩
        · rw [htype]
          exact hfound
        · rw [htoList]
          intro hmem
          have hall := List.all_eq_true.mp (List.all_takeWhile (p := (· ≠ '/')) (l := tag.toList))
            '/' hmem
          exact absurd hall (by decide)
        · rw [htoList, ← hslash, hsplit]
  · rintro ⟨family, text, hfound, hfamily, hname, htag, hversion⟩
    have hslashes : '/' ∉ text := by
      intro hmem
      have hdigit := List.all_eq_true.mp hversion.1.digits '/' hmem
      exact absurd hdigit (by decide)
    have hcount : tag.toList.count '/' = 1 := by
      rw [htag, List.count_append, List.count_cons_self, List.count_eq_zero_of_not_mem hname,
        List.count_eq_zero_of_not_mem hslashes]
    have hbefore : ∀ char ∈ family.schemaType.toList, decide (char ≠ '/') = true :=
      fun char hchar ↦ decide_eq_true fun heq ↦ hname (heq ▸ hchar)
    have htake : tag.toList.takeWhile (· ≠ '/') = family.schemaType.toList := by
      rw [htag, List.takeWhile_append_of_pos hbefore, List.takeWhile_cons_of_neg (by decide),
        List.append_nil]
    have hdrop : tag.toList.dropWhile (· ≠ '/') = '/' :: text := by
      rw [htag, List.dropWhile_append_of_pos hbefore, List.dropWhile_cons_of_neg (by decide)]
    unfold parseTag
    rw [if_neg (not_not.mpr hcount)]
    simp only [htake, hdrop, String.ofList_toList, List.tail_cons, hfound,
      parseVersion_eq_some_iff.mpr hversion]

/-! ### Dispatch on any registry -/

/-- Steps of a family that run one after another, each from the version the last one reached to the
next, and each leaving the tag of its destination. -/
inductive Chain (family : Family) : ℕ → Value → ℕ → Value → Prop
  | refl (version : ℕ) (value : Value) : Chain family version value version value
  | step {version last : ℕ} {value next final : Value} {edge : Edge} (hedge : edge ∈ family.edges)
      (hfrom : edge.fromVersion = version) (hto : edge.toVersion = version + 1)
      (hstep : edge.step value = .ok () next)
      (htag : next.schemaTag = some (versionTag family.schemaType (version + 1)))
      (hrest : Chain family (version + 1) next last final) :
      Chain family version value last final

/-- A step stops a migration: it fails, or it leaves another tag than its destination's. -/
def Breaks (family : Family) (version : ℕ) (step : Step) (value left : Value) : Prop :=
  (∃ error, step value = .err error left) ∨
    step value = .ok () left ∧ left.schemaTag ≠ some (versionTag family.schemaType (version + 1))

inductive Collected (family : Family) : ℕ → List Step → Prop
  | nil (version : ℕ) : Collected family version []
  | cons {version : ℕ} {steps : List Step} {edge : Edge} (hedge : edge ∈ family.edges)
      (hfrom : edge.fromVersion = version) (hto : edge.toVersion = version + 1)
      (hrest : Collected family (version + 1) steps) :
      Collected family version (edge.step :: steps)

theorem collectSteps_cases (family : Family) (tag : String) (remaining version : ℕ) :
    collectSteps family tag remaining version = .error (.unsupportedSchema tag) ∨
      ∃ steps, collectSteps family tag remaining version = .ok steps ∧
        steps.length = remaining ∧ Collected family version steps := by
  induction remaining generalizing version with
  | zero => exact Or.inr ⟨[], rfl, rfl, .nil version⟩
  | succ remaining ih =>
    unfold collectSteps
    cases hfind : family.edges.find? fun edge ↦ edge.fromVersion = version with
    | none => exact Or.inl rfl
    | some edge =>
      dsimp only
      by_cases hjump : edge.toVersion ≠ version + 1
      · left
        rw [if_pos hjump]
      · rw [if_neg hjump]
        rw [ne_eq, not_not] at hjump
        have hfrom : edge.fromVersion = version := by simpa using List.find?_some hfind
        have hedge := List.mem_of_find?_eq_some hfind
        obtain hrefused | ⟨steps, hsteps, hlength, hcollected⟩ := ih edge.toVersion
        · left
          rw [hrefused]
          rfl
        · right
          rw [hsteps]
          rw [hjump] at hcollected
          refine ⟨edge.step :: steps, rfl, ?_, .cons hedge hfrom hjump hcollected⟩
          rw [List.length_cons, hlength]

def Ran (family : Family) (version : ℕ) (value : Value) (last : ℕ)
    (outcome : Outcome Value DataError Unit) : Prop :=
  (∃ final, outcome = .ok () final ∧ Chain family version value last final) ∨
  (∃ reached middle edge left message, outcome = .err (.malformed message) left ∧
    Chain family version value reached middle ∧ reached < last ∧ edge ∈ family.edges ∧
    edge.fromVersion = reached ∧ Breaks family reached edge.step middle left) ∨
  (∃ reached middle edge why, outcome = .fault why ∧ Chain family version value reached middle ∧
    reached < last ∧ edge ∈ family.edges ∧ edge.fromVersion = reached ∧
    edge.step middle = .fault why)

variable {family : Family} {value next : Value}

/-- A first step and a run of the rest. -/
theorem Ran.cons {last : ℕ} {edge : Edge} {outcome : Outcome Value DataError Unit}
    (hedge : edge ∈ family.edges) (hfrom : edge.fromVersion = version)
    (hto : edge.toVersion = version + 1) (hstep : edge.step value = .ok () next)
    (htag : next.schemaTag = some (versionTag family.schemaType (version + 1)))
    (hran : Ran family (version + 1) next last outcome) :
    Ran family version value last outcome := by
  obtain ⟨final, hok, hchain⟩ | ⟨reached, middle, other, left, message, herr, hchain, hrest⟩ |
    ⟨reached, middle, other, why, hfault, hchain, hrest⟩ := hran
  · exact Or.inl ⟨final, hok, .step hedge hfrom hto hstep htag hchain⟩
  · exact Or.inr (Or.inl ⟨reached, middle, other, left, message, herr,
      .step hedge hfrom hto hstep htag hchain, hrest⟩)
  · exact Or.inr (Or.inr ⟨reached, middle, other, why, hfault,
      .step hedge hfrom hto hstep htag hchain, hrest⟩)

theorem ran_runSteps {steps : List Step} (hcollected : Collected family version steps)
    (value : Value) : Ran family version value (version + steps.length)
      (runSteps family.schemaType (version + 1) steps value) := by
  induction hcollected generalizing value with
  | nil version => exact Or.inl ⟨value, rfl, .refl version value⟩
  | @cons version steps edge hedge hfrom hto hrest ih =>
    have hbelow : version < version + (edge.step :: steps).length := by
      rw [List.length_cons]
      omega
    simp only [runSteps, Call.bind_apply, orFailed]
    cases hstep : edge.step value with
    | err error left =>
      exact Or.inr (Or.inl ⟨version, value, edge, left, _, rfl, .refl version value, hbelow, hedge,
        hfrom, Or.inl ⟨error, hstep⟩⟩)
    | fault why =>
      exact Or.inr (Or.inr ⟨version, value, edge, why, rfl, .refl version value, hbelow, hedge,
        hfrom, hstep⟩)
    | ok done next =>
      simp only [Outcome.ok_bind, checkTag, Call.bind_apply, Call.get_apply]
      by_cases htag : next.schemaTag ≠ some (versionTag family.schemaType (version + 1))
      · rw [Call.failIf_of htag, Outcome.err_bind]
        exact Or.inr (Or.inl ⟨version, value, edge, next, _, rfl, .refl version value, hbelow,
          hedge, hfrom, Or.inr ⟨hstep, htag⟩⟩)
      · rw [Call.failIf_of_not htag, Outcome.ok_bind]
        have hran := ih next
        rw [List.length_cons, Nat.add_comm steps.length, ← Nat.add_assoc]
        exact hran.cons hedge hfrom hto hstep (not_not.mp htag)

/-- Dispatch on any registry refuses the value and leaves it, or runs the chain of the tag's family
from the tag's version to the current one. -/
theorem dispatch_cases (registry : Registry) (value : Value) :
    (∃ error, dispatch registry value = .err error value) ∨
    ∃ tag index version family, value.integral = true ∧ value.schemaTag = some tag ∧
      parseTag tag registry = .ok (index, version) ∧ registry[index]? = some family ∧
      version ≤ family.current ∧
      Ran family version value family.current (dispatch registry value) := by
  unfold dispatch
  simp only [Call.bind_apply, Call.get_apply, Outcome.ok_bind, Value.rejectNonIntegers]
  by_cases hintegral : value.integral = true
  · simp only [hintegral, if_true, Call.ofExcept_ok, Outcome.ok_bind]
    cases htag : value.schemaTag with
    | none => exact Or.inl ⟨_, rfl⟩
    | some tag =>
      simp only [Call.okOr, Call.pure_apply, Outcome.ok_bind]
      cases hparse : parseTag tag registry with
      | error error => exact Or.inl ⟨error, rfl⟩
      | ok parsed =>
        obtain ⟨index, version⟩ := parsed
        obtain ⟨family, text, -, hfamily, -⟩ := parseTag_eq_ok_iff.mp hparse
        simp only [Call.ofExcept_ok, Outcome.ok_bind, hfamily, Call.expect_some]
        cases hvalid : validateFamily family tag with
        | error error => exact Or.inl ⟨error, rfl⟩
        | ok done =>
          simp only [Call.ofExcept_ok, Outcome.ok_bind]
          by_cases hfuture : family.current < version
          · rw [Call.failIf_of hfuture]
            exact Or.inl ⟨_, rfl⟩
          · rw [Call.failIf_of_not hfuture, Outcome.ok_bind]
            rw [not_lt] at hfuture
            by_cases hcurrent : version = family.current
            · rw [if_pos hcurrent]
              refine Or.inr ⟨tag, index, version, family, trivial, rfl, hparse, hfamily, hfuture,
                Or.inl ⟨value, rfl, ?_⟩⟩
              rw [← hcurrent]
              exact .refl version value
            · rw [if_neg hcurrent, Call.bind_apply]
              obtain hrefused | ⟨steps, hsteps, hlength, hcollected⟩ :=
                collectSteps_cases family tag (family.current - version) version
              · rw [hrefused]
                exact Or.inl ⟨_, rfl⟩
              · rw [hsteps, Call.ofExcept_ok, Outcome.ok_bind]
                have hran := ran_runSteps hcollected value
                rw [hlength, Nat.add_sub_cancel' hfuture] at hran
                exact Or.inr ⟨tag, index, version, family, trivial, rfl, hparse, hfamily, hfuture,
                  hran⟩
  · simp only [hintegral, Bool.false_eq_true, if_false]
    exact Or.inl ⟨_, rfl⟩

/-! ### The production registry -/

theorem expectTag_cases (document tag : String) (value : Value) :
    (∃ error, expectTag document tag value = .err error value) ∨
    ∃ members, value = .object members ∧ Value.getMember members "schema" = some (.string tag) ∧
      expectTag document tag value = .ok members value := by
  simp only [expectTag, Call.bind_apply, Call.get_apply, Outcome.ok_bind]
  cases value with
  | object members =>
    simp only [Value.asObject, Call.okOr, Call.pure_apply, Outcome.ok_bind]
    cases hschema : (Value.getMember members "schema").bind Value.asStr with
    | none => exact Or.inl ⟨_, rfl⟩
    | some current =>
      simp only [Call.pure_apply, Outcome.ok_bind]
      by_cases hother : current ≠ tag
      · rw [Call.failIf_of hother]
        exact Or.inl ⟨_, rfl⟩
      · rw [Call.failIf_of_not hother]
        obtain ⟨found, hfound, htext⟩ := Option.bind_eq_some_iff.mp hschema
        cases found with
        | string text =>
          cases htext
          rw [ne_eq, not_not] at hother
          exact Or.inr ⟨members, rfl, by rw [hfound, hother], rfl⟩
        | _ => cases htext
  | _ => exact Or.inl ⟨_, rfl⟩

/-- What an upgrade of a value did: the tag and the members it started from, and the members it
left. -/
inductive Upgrade : Value → Value → Prop
  | ability {members : List (String × Value)}
      (htag : Value.getMember members "schema" = some (.string "crpg.ability/1")) :
      Upgrade (.object members) (.object (Ability.upgraded members))
  | ruleset {members : List (String × Value)} {pool : Value}
      (htag : Value.getMember members "schema" = some (.string "crpg.ruleset/1"))
      (hpool : Value.getMember members "action_pool" = some pool) :
      Upgrade (.object members) (.object (Ruleset.upgraded members pool))
  | item {members : List (String × Value)}
      (htag : Value.getMember members "schema" = some (.string "crpg.item/1")) :
      Upgrade (.object members) (.object (Item.upgraded members))

theorem Ability.upgrade_of_v1ToV2 (hstep : v1ToV2 value = .ok () next) : Upgrade value next := by
  simp only [v1ToV2, Call.bind_apply] at hstep
  obtain ⟨error, herror⟩ | ⟨members, rfl, htag, hmembers⟩ :=
    expectTag_cases "ability" "crpg.ability/1" value
  · rw [herror] at hstep
    cases hstep
  · rw [hmembers] at hstep
    cases hstep
    exact .ability htag

theorem Ruleset.upgrade_of_v1ToV2 (hstep : v1ToV2 value = .ok () next) : Upgrade value next := by
  simp only [v1ToV2, Call.bind_apply] at hstep
  obtain ⟨error, herror⟩ | ⟨members, rfl, htag, hmembers⟩ :=
    expectTag_cases "ruleset" "crpg.ruleset/1" value
  · rw [herror] at hstep
    cases hstep
  · rw [hmembers, Outcome.ok_bind] at hstep
    cases hpool : Value.getMember members "action_pool" with
    | none =>
      rw [hpool] at hstep
      cases hstep
    | some pool =>
      rw [hpool] at hstep
      cases hstep
      exact .ruleset htag hpool

theorem Item.upgrade_of_v1ToV2 (hstep : v1ToV2 value = .ok () next) : Upgrade value next := by
  simp only [v1ToV2, Call.bind_apply] at hstep
  obtain ⟨error, herror⟩ | ⟨members, rfl, htag, hmembers⟩ :=
    expectTag_cases "item" "crpg.item/1" value
  · rw [herror] at hstep
    cases hstep
  · rw [hmembers] at hstep
    cases hstep
    exact .item htag

theorem edge_of_production : ∀ family ∈ productionRegistry, ∀ edge ∈ family.edges,
    edge.fromVersion = 1 ∧ family.current = 2 ∧
      ∀ value next, edge.step value = .ok () next → Upgrade value next := by
  simp only [productionRegistry, List.forall_mem_cons, List.not_mem_nil, false_imp_iff,
    implies_true, and_true, true_and]
  exact ⟨fun _ _ ↦ Ability.upgrade_of_v1ToV2, fun _ _ ↦ Item.upgrade_of_v1ToV2,
    fun _ _ ↦ Ruleset.upgrade_of_v1ToV2⟩

theorem v1ToV2_returns {document : String} {next : List (String × Value) → Step}
    (hnext : ∀ members left why, next members left ≠ .fault why) (why : Fault) :
    (expectTag document tag >>= next) value ≠ .fault why := by
  obtain ⟨error, herror⟩ | ⟨members, -, -, hmembers⟩ := expectTag_cases document tag value
  · rw [Call.bind_apply, herror]
    nofun
  · rw [Call.bind_apply, hmembers]
    exact hnext members value why

theorem production_returns : ∀ family ∈ productionRegistry, ∀ edge ∈ family.edges,
    ∀ value why, edge.step value ≠ .fault why := by
  simp only [productionRegistry, List.forall_mem_cons, List.not_mem_nil, false_imp_iff,
    implies_true, and_true, true_and]
  have hset : ∀ (next left : Value) (why : Fault),
      (Call.set next : Step) left ≠ .fault why := fun _ _ _ hfault ↦ nomatch hfault
  refine ⟨fun value why ↦ v1ToV2_returns (fun _ left why ↦ hset _ left why) why,
    fun value why ↦ v1ToV2_returns (fun _ left why ↦ hset _ left why) why,
    fun value why ↦ v1ToV2_returns (fun members left why hfault ↦ ?_) why⟩
  cases hpool : Value.getMember members "action_pool" with
  | none =>
    rw [hpool] at hfault
    cases hfault
  | some pool =>
    rw [hpool] at hfault
    cases hfault

variable {result : Value}

theorem Chain.upgrade (hfamily : family ∈ productionRegistry)
    (hchain : Chain family version value family.current result) :
    result = value ∧ version = family.current ∨ Upgrade value result := by
  cases hchain with
  | refl => exact Or.inl ⟨rfl, rfl⟩
  | step hedge hfrom hto hstep htag hrest =>
    obtain ⟨hone, htwo, hupgrade⟩ := edge_of_production family hfamily _ hedge
    right
    generalize hlast : family.current = last at hrest
    cases hrest with
    | refl => exact hupgrade _ _ hstep
    | step hother hfromOther =>
      have honeOther := (edge_of_production family hfamily _ hother).1
      omega

theorem dispatch_production (hdispatch : dispatch productionRegistry value = .ok () result) :
    ∃ tag index version family, value.integral = true ∧ value.schemaTag = some tag ∧
      parseTag tag productionRegistry = .ok (index, version) ∧
      productionRegistry[index]? = some family ∧
      (result = value ∧ version = family.current ∨ Upgrade value result) := by
  obtain ⟨error, herror⟩ | ⟨tag, index, version, family, hintegral, htag, hparse, hfamily, -, hran⟩ :=
    dispatch_cases productionRegistry value
  · rw [herror] at hdispatch
    cases hdispatch
  · refine ⟨tag, index, version, family, hintegral, htag, hparse, hfamily, ?_⟩
    rw [hdispatch] at hran
    obtain ⟨final, hok, hchain⟩ | ⟨_, _, _, _, _, herr, -⟩ | ⟨_, _, _, _, hfault, -⟩ := hran
    · cases hok
      exact hchain.upgrade (List.mem_of_getElem? hfamily)
    · cases herr
    · cases hfault

theorem dispatch_of_current (hintegral : value.integral = true) (htag : value.schemaTag = some tag)
    (hparse : parseTag tag productionRegistry = .ok (index, version))
    (hfamily : productionRegistry[index]? = some family)
    (hvalid : validateFamily family tag = .ok ()) (hcurrent : version = family.current) :
    dispatch productionRegistry value = .ok () value := by
  unfold dispatch
  simp only [Call.bind_apply, Call.get_apply, Outcome.ok_bind, Value.rejectNonIntegers, hintegral,
    if_true, Call.ofExcept_ok, htag, Call.okOr, Call.pure_apply, hparse, hfamily, Call.expect_some,
    hvalid, Call.failIf_of_not (hcurrent ▸ lt_irrefl _ : ¬family.current < version)]
  rw [if_pos hcurrent]
  rfl

/-- An upgrade leaves a value of integers with the tag of version two. -/
theorem Upgrade.current (hupgrade : Upgrade value result) (hintegral : value.integral = true) :
    dispatch productionRegistry result = .ok () result := by
  cases hupgrade with
  | @ability members htag =>
    have hmembers : Value.integralMembers (Ability.upgraded members) = true :=
      Value.integralMembers_insertMember (Value.integralMembers_insertMember
        (Value.integralMembers_insertMember (Value.integralMembers_insertMember hintegral rfl) rfl)
          rfl) rfl
    have hschema : (Value.object (Ability.upgraded members)).schemaTag = some "crpg.ability/2" := by
      simp [Value.schemaTag, Value.asObject, Ability.upgraded, Value.asStr]
    exact dispatch_of_current hmembers hschema
      (by decide +kernel : parseTag "crpg.ability/2" productionRegistry = .ok (0, 2)) rfl
      (by decide +kernel) rfl
  | @ruleset members pool htag hpool =>
    have hpoolIntegral : pool.integral = true := Value.integral_of_getMember hintegral hpool
    have hpools : (Value.array [pool]).integral = true := by
      show (pool.integral && true) = true
      rw [hpoolIntegral]
      rfl
    have hmembers : Value.integralMembers (Ruleset.upgraded members pool) = true :=
      Value.integralMembers_insertMember (Value.integralMembers_insertMember
        (Value.integralMembers_removeMember hintegral) hpools) rfl
    have hschema : (Value.object (Ruleset.upgraded members pool)).schemaTag =
        some "crpg.ruleset/2" := by
      simp [Value.schemaTag, Value.asObject, Ruleset.upgraded, Value.asStr]
    exact dispatch_of_current hmembers hschema
      (by decide +kernel : parseTag "crpg.ruleset/2" productionRegistry = .ok (16, 2)) rfl
      (by decide +kernel) rfl
  | @item members htag =>
    have hmembers : Value.integralMembers (Item.upgraded members) = true :=
      Value.integralMembers_insertMember hintegral rfl
    have hschema : (Value.object (Item.upgraded members)).schemaTag = some "crpg.item/2" := by
      simp [Value.schemaTag, Value.asObject, Item.upgraded, Value.asStr]
    exact dispatch_of_current hmembers hschema
      (by decide +kernel : parseTag "crpg.item/2" productionRegistry = .ok (11, 2)) rfl
      (by decide +kernel) rfl

theorem validateFamily_production : ∀ family ∈ productionRegistry, ∀ tag,
    validateFamily family tag = .ok () := by
  intro family hfamily tag
  have hvalid : ∀ family ∈ productionRegistry,
      (1 ≤ family.current && validateEdges family [] family.edges) = true := by
    simp only [productionRegistry, List.forall_mem_cons]
    decide
  rw [validateFamily, if_pos (hvalid family hfamily)]

theorem dispatch_idempotent (hdispatch : dispatch productionRegistry value = .ok () result) :
    dispatch productionRegistry result = .ok () result := by
  obtain ⟨tag, index, version, family, hintegral, -, -, -, ⟨hsame, -⟩ | hupgrade⟩ :=
    dispatch_production hdispatch
  · rw [hsame] at hdispatch ⊢
    exact hdispatch
  · exact hupgrade.current hintegral

/-! ### Authored members -/

/-- Every member of an object but the tag, and but the pool that a ruleset's step moves, is in the
result with its value. -/
def Preserves (value result : Value) : Prop :=
  ∀ members, value = .object members → ∃ left, result = .object left ∧
    ∀ key member, Value.getMember members key = some member → key ≠ "schema" →
      ¬(key = "action_pool" ∧ value.schemaTag = some "crpg.ruleset/1") →
        Value.getMember left key = some member

/-- A value of version one holds a member under a name that its step writes, of another value than
the step writes. -/
def Overwrites (value : Value) : Prop :=
  ∃ members member, value = .object members ∧
    (value.schemaTag = some "crpg.ability/1" ∧
        (Value.getMember members "extra_costs" = some member ∧ member ≠ .array [] ∨
          Value.getMember members "ends_turn" = some member ∧ member ≠ .bool true ∨
          Value.getMember members "defense" = some member ∧ member ≠ Ability.defaultDefense) ∨
      value.schemaTag = some "crpg.ruleset/1" ∧ Value.getMember members "pools" = some member ∧
        ∀ pool, Value.getMember members "action_pool" = some pool → member ≠ .array [pool])

variable {members : List (String × Value)}

theorem schemaTag_object (htag : Value.getMember members "schema" = some (.string tag)) :
    (Value.object members).schemaTag = some tag := by
  simp only [Value.schemaTag, Value.asObject, Option.bind_some, htag, Value.asStr]

theorem getMember_ability (members : List (String × Value)) {key : String}
    (hkey : key ≠ "schema") : Value.getMember (Ability.upgraded members) key =
      if key = "defense" then some Ability.defaultDefense
      else if key = "ends_turn" then some (.bool true)
      else if key = "extra_costs" then some (.array []) else Value.getMember members key := by
  simp only [Ability.upgraded, Value.getMember_insertMember, if_neg hkey]

theorem getMember_ruleset (members : List (String × Value)) (pool : Value) {key : String}
    (hkey : key ≠ "schema") : Value.getMember (Ruleset.upgraded members pool) key =
      if key = "pools" then some (.array [pool]) else if key = "action_pool" then none
      else Value.getMember members key := by
  simp only [Ruleset.upgraded, Value.getMember_insertMember, Value.getMember_removeMember,
    if_neg hkey]

theorem ability_preserves_iff
    (htag : Value.getMember members "schema" = some (.string "crpg.ability/1")) :
    Preserves (.object members) (.object (Ability.upgraded members)) ↔
      ¬Overwrites (.object members) := by
  have hschema := schemaTag_object htag
  constructor
  · rintro hpreserves ⟨_, member, ⟨⟩, ⟨-, hmember⟩ | ⟨hother, -⟩⟩
    · obtain ⟨_, ⟨⟩, hkept⟩ := hpreserves members rfl
      have hwritten : ∀ key written, key ≠ "schema" → key ≠ "action_pool" →
          Value.getMember (Ability.upgraded members) key = some written →
          Value.getMember members key = some member → member = written := by
        intro key written hkey hpool hupgraded hget
        have hsame := hkept key member hget hkey fun hmoved ↦ hpool hmoved.1
        rw [hupgraded, Option.some.injEq] at hsame
        exact hsame.symm
      obtain ⟨hget, hne⟩ | ⟨hget, hne⟩ | ⟨hget, hne⟩ := hmember
      · refine hne (hwritten "extra_costs" _ (by decide) (by decide) ?_ hget)
        rw [getMember_ability members (by decide), if_neg (by decide), if_neg (by decide),
          if_pos rfl]
      · refine hne (hwritten "ends_turn" _ (by decide) (by decide) ?_ hget)
        rw [getMember_ability members (by decide), if_neg (by decide), if_pos rfl]
      · refine hne (hwritten "defense" _ (by decide) (by decide) ?_ hget)
        rw [getMember_ability members (by decide), if_pos rfl]
    · rw [hschema] at hother
      exact absurd hother (by decide)
  · rintro hkept _ ⟨⟩
    refine ⟨_, rfl, fun key member hget hkey _ ↦ ?_⟩
    rw [getMember_ability members hkey]
    split_ifs with hdefense hends hcosts
    · by_contra hne
      rw [hdefense] at hget
      exact hkept ⟨members, member, rfl, Or.inl ⟨hschema, Or.inr (Or.inr ⟨hget,
        fun heq ↦ hne (by rw [heq])⟩)⟩⟩
    · by_contra hne
      rw [hends] at hget
      exact hkept ⟨members, member, rfl, Or.inl ⟨hschema, Or.inr (Or.inl ⟨hget,
        fun heq ↦ hne (by rw [heq])⟩)⟩⟩
    · by_contra hne
      rw [hcosts] at hget
      exact hkept ⟨members, member, rfl, Or.inl ⟨hschema, Or.inl ⟨hget,
        fun heq ↦ hne (by rw [heq])⟩⟩⟩
    · exact hget

theorem ruleset_preserves_iff {pool : Value}
    (htag : Value.getMember members "schema" = some (.string "crpg.ruleset/1"))
    (hpool : Value.getMember members "action_pool" = some pool) :
    Preserves (.object members) (.object (Ruleset.upgraded members pool)) ↔
      ¬Overwrites (.object members) := by
  have hschema := schemaTag_object htag
  constructor
  · rintro hpreserves ⟨_, member, ⟨⟩, ⟨hother, -⟩ | ⟨-, hget, hne⟩⟩
    · rw [hschema] at hother
      exact absurd hother (by decide)
    · obtain ⟨_, ⟨⟩, hkept⟩ := hpreserves members rfl
      have hsame := hkept "pools" member hget (by decide) fun hmoved ↦ absurd hmoved.1 (by decide)
      rw [getMember_ruleset members pool (by decide), if_pos rfl, Option.some.injEq] at hsame
      exact hne pool hpool hsame.symm
  · rintro hkept _ ⟨⟩
    refine ⟨_, rfl, fun key member hget hkey hmoved ↦ ?_⟩
    rw [getMember_ruleset members pool hkey]
    split_ifs with hpools haction
    · by_contra hne
      rw [hpools] at hget
      refine hkept ⟨members, member, rfl, Or.inr ⟨hschema, hget, fun other hother heq ↦ ?_⟩⟩
      rw [hpool, Option.some.injEq] at hother
      exact hne (by rw [heq, hother])
    · exact absurd ⟨haction, hschema⟩ hmoved
    · exact hget

theorem item_preserves (htag : Value.getMember members "schema" = some (.string "crpg.item/1")) :
    Preserves (.object members) (.object (Item.upgraded members)) ∧
      ¬Overwrites (.object members) := by
  have hschema := schemaTag_object htag
  constructor
  · rintro _ ⟨⟩
    refine ⟨_, rfl, fun key member hget hkey _ ↦ ?_⟩
    rw [Item.upgraded, Value.getMember_insertMember, if_neg hkey]
    exact hget
  · rintro ⟨_, member, -, ⟨hother, -⟩ | ⟨hother, -⟩⟩
    · rw [hschema] at hother
      exact absurd hother (by decide)
    · rw [hschema] at hother
      exact absurd hother (by decide)

/-- An upgrade loses an authored member exactly where its step overwrites one. -/
theorem Upgrade.preserves_iff (hupgrade : Upgrade value result) :
    Preserves value result ↔ ¬Overwrites value := by
  cases hupgrade with
  | ability htag => exact ability_preserves_iff htag
  | ruleset htag hpool => exact ruleset_preserves_iff htag hpool
  | item htag => exact iff_of_true (item_preserves htag).1 (item_preserves htag).2

theorem not_overwrites_of_current (htag : value.schemaTag = some tag)
    (hparse : parseTag tag productionRegistry = .ok (index, version))
    (hfamily : productionRegistry[index]? = some family) (hcurrent : version = family.current) :
    ¬Overwrites value := by
  have hone : ∀ position other, parseTag tag productionRegistry = .ok (position, 1) →
      productionRegistry[position]? = some other → other.current = 1 := by
    intro position other hother hfound
    rw [hparse, Except.ok.injEq, Prod.mk.injEq] at hother
    obtain ⟨rfl, rfl⟩ := hother
    rw [hfamily, Option.some.injEq] at hfound
    rw [← hfound, ← hcurrent]
  rintro ⟨_, _, -, ⟨hability, -⟩ | ⟨hruleset, -⟩⟩
  · rw [htag, Option.some.injEq] at hability
    have hparsed : parseTag "crpg.ability/1" productionRegistry = .ok (0, 1) := by decide +kernel
    exact absurd (hone 0 _ (hability ▸ hparsed) rfl) (by decide)
  · rw [htag, Option.some.injEq] at hruleset
    have hparsed : parseTag "crpg.ruleset/1" productionRegistry = .ok (16, 1) := by decide +kernel
    exact absurd (hone 16 _ (hruleset ▸ hparsed) rfl) (by decide)

/-! ### Migrating a document -/

section Migrate

variable {Document : Type} (decodeCurrent : Value → Except DataError Document)

/-- A migration fails and leaves the value, or publishes what the dispatch of the value gives and
the decoder accepts. -/
theorem migrateDocument_cases (value : Value) :
    (∃ error, migrateDocument decodeCurrent value = .err error value) ∨
    ∃ result document, dispatch productionRegistry value = .ok () result ∧
      decodeCurrent result = .ok document ∧
      migrateDocument decodeCurrent value = .ok () result := by
  unfold migrateDocument
  simp only [Call.bind_apply, Call.get_apply, Outcome.ok_bind]
  cases hinteger : value.rejectNonIntegers with
  | error error => exact Or.inl ⟨error, rfl⟩
  | ok done =>
    rw [Call.ofExcept_ok, Outcome.ok_bind]
    obtain ⟨error, herror⟩ | ⟨tag, index, version, family, -, -, -, hfamily, -, hran⟩ :=
      dispatch_cases productionRegistry value
    · rw [herror]
      exact Or.inl ⟨error, rfl⟩
    · obtain ⟨result, hok, -⟩ | ⟨_, _, _, left, message, herr, -⟩ |
        ⟨_, middle, edge, why, -, -, -, hedge, -, hfault⟩ := hran
      · cases hdecode : decodeCurrent result with
        | error error =>
          simp only [hok, Call.bind_apply, hdecode, Call.ofExcept_error, Outcome.err_bind]
          exact Or.inl ⟨error, rfl⟩
        | ok document =>
          simp only [hok, Call.bind_apply, hdecode, Call.ofExcept_ok, Outcome.ok_bind,
            Call.set_apply]
          exact Or.inr ⟨result, document, rfl, hdecode, rfl⟩
      · rw [herr]
        exact Or.inl ⟨_, rfl⟩
      · exact absurd hfault
          (production_returns family (List.mem_of_getElem? hfamily) edge hedge middle why)

theorem migrateDocument_ne_err {value result : Value} {document : Document}
    (hdispatch : dispatch productionRegistry value = .ok () result)
    (hdecode : decodeCurrent result = .ok document) (error : DataError) :
    migrateDocument decodeCurrent value ≠ .err error value := by
  obtain ⟨_, _, _, _, hintegral, -⟩ := dispatch_production hdispatch
  unfold migrateDocument
  simp only [Call.bind_apply, Call.get_apply, Outcome.ok_bind, Value.rejectNonIntegers, hintegral,
    if_true, Call.ofExcept_ok, hdispatch, hdecode, Call.set_apply]
  nofun

theorem reads_as_migrated {value result : Value}
    (hdispatch : dispatch productionRegistry value = .ok () result) {document : Document}
    (hdecode : decodeCurrent result = .ok document)
    {parse : List UInt8 → Except DataError Value} {bytes after : List UInt8}
    (hbytes : parse bytes = .ok value) (hafter : parse after = .ok result) :
    readDocument decodeCurrent parse bytes = .ok document ∧
      readDocument decodeCurrent parse after = .ok document := by
  constructor
  · simp only [readDocument, hbytes, hdispatch, hdecode, Result.ofExcept]
  · simp only [readDocument, hafter, dispatch_idempotent hdispatch, hdecode, Result.ofExcept]

/-- Migrations. A migration fails and leaves the value, or it succeeds: the result migrates to
itself, a current value is its own result, bytes of the value and of the result read as one
document, and the authored members are preserved exactly where no step overwrites one. On any
registry, dispatch refuses a value and leaves it, runs the steps of its family from the tag's
version to the current one, or stops as malformed at a step that breaks; and a tag is read exactly
when it is a registered type, a slash and a canonical version. -/
theorem migrations_preserve :
    (∀ value, (∃ error, migrateDocument decodeCurrent value = .err error value) ∨
      ∃ result, migrateDocument decodeCurrent value = .ok () result ∧
        migrateDocument decodeCurrent result = .ok () result ∧
        (∀ tag index version family, value.schemaTag = some tag →
          parseTag tag productionRegistry = .ok (index, version) →
          productionRegistry[index]? = some family → version = family.current → result = value) ∧
        (∃ document, ∀ parse bytes after, parse bytes = .ok value → parse after = .ok result →
          readDocument decodeCurrent parse bytes = .ok document ∧
            readDocument decodeCurrent parse after = .ok document) ∧
        (Preserves value result ↔ ¬Overwrites value)) ∧
    (∀ registry value, (∃ error, dispatch registry value = .err error value) ∨
      ∃ tag index version family, value.integral = true ∧ value.schemaTag = some tag ∧
        parseTag tag registry = .ok (index, version) ∧ registry[index]? = some family ∧
        version ≤ family.current ∧
        Ran family version value family.current (dispatch registry value)) ∧
    (∀ registry tag index version, parseTag tag registry = .ok (index, version) ↔ ∃ family text,
        registry.findIdx? (fun other ↦ other.schemaType = family.schemaType) = some index ∧
        registry[index]? = some family ∧ '/' ∉ family.schemaType.toList ∧
        tag.toList = family.schemaType.toList ++ '/' :: text ∧ CanonicalDecimal text version ∧
        1 ≤ version ∧ version ≤ u32Max) := by
  refine ⟨fun value ↦ ?_, dispatch_cases, fun _ _ _ _ ↦ parseTag_eq_ok_iff⟩
  obtain hfails | ⟨result, document, hdispatch, hdecode, hmigrate⟩ :=
    migrateDocument_cases decodeCurrent value
  · exact Or.inl hfails
  · right
    obtain ⟨tag, index, version, family, hintegral, htag, hparse, hfamily, hmoved⟩ :=
      dispatch_production hdispatch
    refine ⟨result, hmigrate, ?_, ?_, ⟨document, fun parse bytes after hbytes hafter ↦
      reads_as_migrated decodeCurrent hdispatch hdecode hbytes hafter⟩, ?_⟩
    · obtain ⟨error, herror⟩ | ⟨again, _, hagain, -, hmigrated⟩ :=
        migrateDocument_cases decodeCurrent result
      · exact absurd herror (migrateDocument_ne_err decodeCurrent
          (dispatch_idempotent hdispatch) hdecode error)
      · rw [dispatch_idempotent hdispatch] at hagain
        cases hagain
        exact hmigrated
    · intro tag' index' version' family' htag' hparse' hfamily' hcurrent'
      have hvalue := dispatch_of_current hintegral htag' hparse' hfamily'
        (validateFamily_production family' (List.mem_of_getElem? hfamily') tag') hcurrent'
      rw [hdispatch] at hvalue
      cases hvalue
      rfl
    · obtain ⟨rfl, hcurrent⟩ | hupgrade := hmoved
      · refine iff_of_true (fun members hmembers ↦ ⟨members, hmembers, fun _ _ hget _ _ ↦ hget⟩) ?_
        exact not_overwrites_of_current htag hparse hfamily hcurrent
      · exact hupgrade.preserves_iff

/-- An ability of version one that holds a member of version two. -/
def authoredAbility : Value := .object [("allow_self_target", .bool false),
  ("attribute", .string "pow"), ("cost", .integer 1),
  ("damage", .array [.object [("amount", .integer 1),
    ("outcome", .object [("type", .string "success")])]]),
  ("dice", .string "2d6"), ("ends_turn", .bool false), ("id", .string "0000000000000000000000001X"),
  ("name", .string "fixture.creature"), ("outcome_table", .string "0000000000000000000000001Y"),
  ("requires_target", .bool true), ("schema", .string "crpg.ability/1"),
  ("slug", .string "migrated-ability")]

/-- The step writes over the authored member, and the migration succeeds. -/
theorem migration_overwrites : ¬∀ (accepts : Value → Except DataError Unit) (value result : Value),
    migrateDocument accepts value = .ok () result → Preserves value result := by
  intro hpreserves
  have hmigrated : ∃ left, migrateDocument
      (fun value ↦ if value.schemaTag = some "crpg.ability/2" then .ok () else
        .error (.malformed "decode")) authoredAbility = .ok () (.object left) ∧
      Value.getMember left "ends_turn" = some (.bool true) := ⟨_, rfl, rfl⟩
  obtain ⟨left, hmigrated, htrue⟩ := hmigrated
  obtain ⟨members, hmembers, hkept⟩ := hpreserves _ _ _ hmigrated _ rfl
  cases hmembers
  have hfalse := hkept "ends_turn" (.bool false) rfl (by decide) (by decide)
  rw [htrue] at hfalse
  cases hfalse

end Migrate

end Crpg.Data
