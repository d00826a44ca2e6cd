import Crpg.Rules.StatSemantics

/-!
# Evaluation meets its semantics

The memoizing evaluation of a stat against the plain recursion of `Evaluates` and `Meets`. The
traces hold values of the recursion and are closed under references (`Recorded`); evaluating a stat
adds traces of stats it reaches. The fuel suffices because the stats being evaluated form a
dependency path, and in a valid pipeline a path repeats no stat. `evaluation_exact` is the result.
-/

set_option autoImplicit false

namespace Crpg.Rules

open Crpg.Core Crpg.Lib ModifierPipeline

/-- A stat is reached from another along references, in any number of steps. -/
def Reaches (pipeline : ModifierPipeline) (stat other : StatId) : Prop :=
  Relation.ReflTransGen (fun first second ↦ pipeline.RefersTo second first) stat other

section Evaluation

variable {pipeline : ModifierPipeline} {context : QueryContext}

structure Recorded (pipeline : ModifierPipeline) (context : QueryContext) (traces : Traces) :
    Prop where
  evaluates : ∀ stat trace, traces.get? stat = some trace →
    Evaluates pipeline context stat trace.value
  closed : ∀ stat trace, traces.get? stat = some trace →
    ∀ reference, pipeline.RefersTo reference stat → ∃ other, traces.get? reference = some other

structure Grown (reach : StatId → Prop) (before after : Traces) : Prop where
  kept : ∀ stat trace, before.get? stat = some trace → after.get? stat = some trace
  reached : ∀ stat trace, after.get? stat = some trace →
    before.get? stat = some trace ∨ reach stat

theorem Grown.refl {reach : StatId → Prop} (traces : Traces) : Grown reach traces traces :=
  ⟨fun _ _ h ↦ h, fun _ _ h ↦ Or.inl h⟩

theorem Grown.trans {reach : StatId → Prop} {before middle after : Traces}
    (hfirst : Grown reach before middle) (hsecond : Grown reach middle after) :
    Grown reach before after := by
  refine ⟨fun stat trace h ↦ hsecond.kept stat trace (hfirst.kept stat trace h),
    fun stat trace h ↦ ?_⟩
  obtain hmiddle | hreach := hsecond.reached stat trace h
  · exact hfirst.reached stat trace hmiddle
  · exact Or.inr hreach

theorem Grown.mono {reach wider : StatId → Prop} {before after : Traces}
    (hgrown : Grown reach before after) (hwider : ∀ stat, reach stat → wider stat) :
    Grown wider before after :=
  ⟨hgrown.kept, fun stat trace h ↦ (hgrown.reached stat trace h).imp_right (hwider stat)⟩

/-- What an evaluation of a stat from some traces answers: its value and the traces it adds, or a
failure of the recursion. -/
def Answers (pipeline : ModifierPipeline) (context : QueryContext) (traces : Traces)
    (stat : StatId) : Result RulesError (StatValue × Traces) → Prop
  | .ok (value, after) => Evaluates pipeline context stat value ∧ Recorded pipeline context after ∧
      Grown (Reaches pipeline stat) traces after ∧ ∃ trace, after.get? stat = some trace
  | .err error => Meets pipeline context stat error
  | .panic => False

/-! ### References -/

structure Resolved (pipeline : ModifierPipeline) (context : QueryContext)
    (state : BTreeMap StatId StatValue × Traces) : Prop where
  recorded : Recorded pipeline context state.2
  value : ∀ reference value, state.1.get? reference = some value →
    Evaluates pipeline context reference value ∧ ∃ trace, state.2.get? reference = some trace

def ResolvesAll (pipeline : ModifierPipeline) (context : QueryContext) (references : List StatId)
    (state : BTreeMap StatId StatValue × Traces) :
    Result RulesError (BTreeMap StatId StatValue × Traces) → Prop
  | .ok after => Resolved pipeline context after ∧
      (∀ reference value, state.1.get? reference = some value →
        after.1.get? reference = some value) ∧
      (∀ reference ∈ references, ∃ value, after.1.get? reference = some value) ∧
      Grown (fun stat ↦ ∃ reference ∈ references, Reaches pipeline reference stat) state.2 after.2
  | .err error => ∃ reference ∈ references, Meets pipeline context reference error
  | .panic => False

theorem ResolvesAll.cons {reference : StatId} {rest : List StatId}
    {state next : BTreeMap StatId StatValue × Traces}
    {result : Result RulesError (BTreeMap StatId StatValue × Traces)}
    (hrest : ResolvesAll pipeline context rest next result)
    (hkept : ∀ other value, state.1.get? other = some value → next.1.get? other = some value)
    (hfirst : ∃ value, next.1.get? reference = some value)
    (hgrown : Grown (Reaches pipeline reference) state.2 next.2) :
    ResolvesAll pipeline context (reference :: rest) state result := by
  cases result with
  | ok after =>
    obtain ⟨hresolved, hkept', hall, hgrown'⟩ := hrest
    refine ⟨hresolved, fun other value h ↦ hkept' other value (hkept other value h),
      fun other hother ↦ ?_,
      (hgrown.mono fun stat h ↦ ⟨reference, List.mem_cons_self .., h⟩).trans
        (hgrown'.mono fun stat ⟨other, hother, h⟩ ↦ ⟨other, List.mem_cons_of_mem _ hother, h⟩)⟩
    by_cases hsame : other = reference
    · obtain ⟨value, hvalue⟩ := hfirst
      rw [hsame]
      exact ⟨value, hkept' reference value hvalue⟩
    · exact hall other ((List.mem_cons.mp hother).resolve_left hsame)
  | err error =>
    obtain ⟨other, hother, hmeets⟩ := hrest
    exact ⟨other, List.mem_cons_of_mem _ hother, hmeets⟩
  | panic => exact hrest

theorem resolvesAll_foldlM
    {eval : Traces → StatId → Result RulesError (StatValue × Traces)} {references : List StatId}
    (heval : ∀ reference ∈ references, ∀ traces, Recorded pipeline context traces →
      Answers pipeline context traces reference (eval traces reference))
    {state : BTreeMap StatId StatValue × Traces} (hstate : Resolved pipeline context state) :
    ResolvesAll pipeline context references state
      (Result.foldlM (resolveReference eval) state references) := by
  induction references generalizing state with
  | nil => exact ⟨hstate, fun _ _ h ↦ h, fun _ h ↦ absurd h List.not_mem_nil, .refl _⟩
  | cons reference rest ih =>
    have hrest := fun next (hnext : Resolved pipeline context next) ↦
      ih (fun other hother ↦ heval other (List.mem_cons_of_mem _ hother)) hnext
    rw [Result.foldlM, resolveReference, BTreeMap.contains]
    cases hknown : state.1.get? reference with
    | some value => exact (hrest state hstate).cons (fun _ _ h ↦ h) ⟨value, hknown⟩ (.refl _)
    | none =>
      have hanswers := heval reference (List.mem_cons_self ..) state.2 hstate.recorded
      show ResolvesAll pipeline context (reference :: rest) state
        (((eval state.2 reference).bind fun evaluated ↦
          .ok (state.1.insert reference evaluated.1, evaluated.2)).bind fun next ↦
            Result.foldlM (resolveReference eval) next rest)
      cases hresult : eval state.2 reference with
      | ok evaluated =>
        rw [hresult] at hanswers
        obtain ⟨hvalue, hrecorded, hgrown, htrace⟩ := hanswers
        rw [Result.ok_bind, Result.ok_bind]
        apply ResolvesAll.cons (hrest _ ?_) ?_ ⟨_, BTreeMap.get?_insert_self ..⟩ hgrown
        · refine ⟨hrecorded, fun other value hget ↦ ?_⟩
          by_cases hsame : other = reference
          · rw [hsame, BTreeMap.get?_insert_self, Option.some.injEq] at hget
            rw [hsame, ← hget]
            exact ⟨hvalue, htrace⟩
          · rw [BTreeMap.get?_insert_of_ne _ hsame] at hget
            obtain ⟨hevaluates, trace, hold⟩ := hstate.value other value hget
            exact ⟨hevaluates, trace, hgrown.kept other trace hold⟩
        · intro other value hget
          have hne : other ≠ reference := by
            rintro rfl
            rw [hknown] at hget
            cases hget
          rw [BTreeMap.get?_insert_of_ne _ hne]
          exact hget
      | err error =>
        rw [hresult] at hanswers
        exact ⟨reference, List.mem_cons_self .., hanswers⟩
      | panic =>
        rw [hresult] at hanswers
        exact hanswers.elim

/-! ### One stat -/

variable {stat : StatId} {definition : StatDefinition}

/-- The lookup of a formula among resolved references. -/
def lookupIn (resolved : BTreeMap StatId StatValue) (location : String) (id : StatId) :
    Except RulesError StatValue :=
  match resolved.get? id with
  | some value => .ok value
  | none => .error (.at .unknownStat location)

def BaseAnswers (pipeline : ModifierPipeline) (context : QueryContext) (traces : Traces)
    (stat : StatId) (definition : StatDefinition) :
    Result RulesError ((StatValue × List StatId) × Traces) → Prop
  | .ok based => Evaluates pipeline context stat (modified pipeline context stat based.1.1) ∧
      Recorded pipeline context based.2 ∧
      Grown (fun other ↦ ∃ reference ∈ definition.refs, Reaches pipeline reference other) traces
        based.2 ∧
      ∀ reference ∈ definition.refs, ∃ trace, based.2.get? reference = some trace
  | .err error => Meets pipeline context stat error
  | .panic => False

theorem baseAnswers_baseOf (hpipeline : ValidPipeline pipeline)
    (hcontext : ValidContext pipeline context)
    (hdefinition : pipeline.definitions.get? stat = some definition)
    {eval : Traces → StatId → Result RulesError (StatValue × Traces)}
    (heval : ∀ reference ∈ definition.refs, ∀ traces, Recorded pipeline context traces →
      Answers pipeline context traces reference (eval traces reference))
    {traces : Traces} (hrecorded : Recorded pipeline context traces) :
    BaseAnswers pipeline context traces stat definition
      (baseOf context eval traces stat definition) := by
  unfold baseOf
  cases hderived : definition.derived with
  | none =>
    have hrefs : definition.refs = [] := by
      rw [StatDefinition.refs, hderived]
      rfl
    cases hbase : context.stats.get? stat with
    | none => exact .missing hdefinition hderived hbase
    | some base =>
      refine ⟨.stored hdefinition hderived hbase, hrecorded, .refl _, fun reference hmem ↦ ?_⟩
      rw [hrefs] at hmem
      exact absurd hmem List.not_mem_nil
  | some expr =>
    have hrefs : definition.refs = expr.sortedRefs := by
      rw [StatDefinition.refs, hderived]
      rfl
    have hstart : Resolved pipeline context (BTreeMap.empty, traces) :=
      ⟨hrecorded, fun _ _ h ↦ by cases h⟩
    have heval' : ∀ reference ∈ expr.sortedRefs.reverse, ∀ traces,
        Recorded pipeline context traces →
          Answers pipeline context traces reference (eval traces reference) := by
      intro reference hmem
      apply heval reference
      rw [hrefs]
      exact List.mem_reverse.mp hmem
    have hall := resolvesAll_foldlM heval' hstart
    simp only
    cases hresolved : Result.foldlM (resolveReference eval) (BTreeMap.empty, traces)
        expr.sortedRefs.reverse with
    | panic =>
      rw [hresolved] at hall
      exact hall.elim
    | err error =>
      rw [hresolved] at hall
      obtain ⟨reference, hmem, hmeets⟩ := hall
      exact .reference hdefinition hderived
        (Expr.mem_sortedRefs.mp (List.mem_reverse.mp hmem)) hmeets
    | ok resolved =>
      rw [hresolved] at hall
      obtain ⟨hvalues, -, hpresent, hgrown⟩ := hall
      have hvalue : ∀ reference ∈ expr.refs, ∃ value,
          resolved.1.get? reference = some value := fun reference hmem ↦
        hpresent reference (List.mem_reverse.mpr (Expr.mem_sortedRefs.mpr hmem))
      obtain ⟨domains, htyped⟩ := hpipeline.typed
      let values : StatId → StatValue := fun reference ↦
        (resolved.1.get? reference).getD (.int 0)
      have hfound : ∀ reference ∈ expr.refs,
          resolved.1.get? reference = some (values reference) := by
        intro reference hmem
        obtain ⟨value, hget⟩ := hvalue reference hmem
        show _ = some ((resolved.1.get? reference).getD (.int 0))
        rw [hget]
        rfl
      have hevaluates : ∀ reference ∈ expr.refs,
          Evaluates pipeline context reference (values reference) :=
        fun reference hmem ↦ (hvalues.value reference _ (hfound reference hmem)).1
      have hlookup : ∀ reference ∈ expr.refs,
          lookupIn resolved.1 ("/stats/" ++ toString stat) reference =
            .ok (values reference) := by
        intro reference hmem
        rw [lookupIn, hfound reference hmem]
      rw [Result.ok_bind]
      show BaseAnswers pipeline context traces stat definition
        ((Result.ofExcept (evalExpr (lookupIn resolved.1 ("/stats/" ++ toString stat))
          ("/stats/" ++ toString stat) expr)).bind fun value ↦
            .ok ((value, expr.sortedRefs), resolved.2))
      obtain ⟨value, hdenote, -, heval⟩ | ⟨hzero, heval⟩ := evalExpr_typed
        (htyped stat definition expr hdefinition hderived)
        (fun reference hmem other hother ↦
          (hevaluates reference hmem).kind hpipeline hcontext hother)
        hlookup ("/stats/" ++ toString stat)
      · rw [heval]
        refine ⟨.derived _ hdefinition hderived hevaluates hdenote, hvalues.recorded,
          hgrown.mono fun other hreached ↦ ?_, fun reference hmem ↦ ?_⟩
        · obtain ⟨reference, hmem, h⟩ := hreached
          refine ⟨reference, ?_, h⟩
          rw [hrefs]
          exact List.mem_reverse.mp hmem
        · rw [hrefs] at hmem
          obtain ⟨value, hfound⟩ := hvalue reference (Expr.mem_sortedRefs.mp hmem)
          exact (hvalues.value reference value hfound).2
      · rw [heval]
        exact .divides _ hdefinition hderived hevaluates hzero

/-! ### Evaluation -/

/-- The stats under evaluation: a dependency path to a stat, without it. -/
structure Pending (pipeline : ModifierPipeline) (path : List StatId) (stat : StatId) : Prop where
  above : ∀ other ∈ path, Relation.TransGen pipeline.RefersTo stat other
  nodup : path.Nodup
  declared : ∀ other ∈ path, other ∈ pipeline.definitions.keys

theorem not_transGen_self (hpipeline : ValidPipeline pipeline) (stat : StatId) :
    ¬Relation.TransGen pipeline.RefersTo stat stat := by
  have hwell : WellFounded pipeline.RefersTo := ⟨hpipeline.accessible⟩
  exact hwell.transGen.irrefl.irrefl stat

theorem Pending.extend (hpipeline : ValidPipeline pipeline) {path : List StatId}
    (hpending : Pending pipeline path stat)
    (hdefinition : pipeline.definitions.get? stat = some definition) {reference : StatId}
    (hreference : reference ∈ definition.refs) : Pending pipeline (stat :: path) reference := by
  have hstep : pipeline.RefersTo reference stat := ⟨definition, hdefinition, hreference⟩
  refine ⟨fun other hother ↦ ?_, List.nodup_cons.mpr ⟨fun hmem ↦ ?_, hpending.nodup⟩,
    fun other hother ↦ ?_⟩
  · by_cases hsame : other = stat
    · rw [hsame]
      exact .single hstep
    · exact .head hstep (hpending.above other ((List.mem_cons.mp hother).resolve_left hsame))
  · exact not_transGen_self hpipeline stat (hpending.above stat hmem)
  · by_cases hsame : other = stat
    · rw [hsame]
      exact pipeline.definitions.mem_keys_iff.mpr ⟨definition, hdefinition⟩
    · exact hpending.declared other ((List.mem_cons.mp hother).resolve_left hsame)

theorem Pending.length_le {path : List StatId} (hpending : Pending pipeline path stat) :
    path.length ≤ pipeline.definitions.size := by
  have hle := (List.subperm_of_subset hpending.nodup hpending.declared).length_le
  rw [BTreeMap.keys, List.length_map] at hle
  exact hle

/-- Evaluation answers as the recursion does. Assumes: fuel for the stats not under evaluation. -/
theorem answers_evalStat (hpipeline : ValidPipeline pipeline)
    (hcontext : ValidContext pipeline context) {fuel : ℕ} {path : List StatId}
    (hpending : Pending pipeline path stat)
    (hdefinition : pipeline.definitions.get? stat = some definition)
    (hfuel : pipeline.definitions.size < path.length + fuel) {traces : Traces}
    (hrecorded : Recorded pipeline context traces) :
    Answers pipeline context traces stat (pipeline.evalStat context fuel traces stat) := by
  induction fuel generalizing path stat definition traces with
  | zero =>
    have hle := hpending.length_le
    omega
  | succ fuel ih =>
    rw [evalStat]
    cases htrace : traces.get? stat with
    | some trace =>
      exact ⟨hrecorded.evaluates stat trace htrace, hrecorded, .refl _, trace, htrace⟩
    | none =>
      have heval : ∀ reference ∈ definition.refs, ∀ traces, Recorded pipeline context traces →
          Answers pipeline context traces reference
            (pipeline.evalStat context fuel traces reference) := by
        intro reference hreference traces hrecorded
        obtain ⟨other, hother⟩ := hpipeline.declared stat definition hdefinition reference hreference
        apply ih (hpending.extend hpipeline hdefinition hreference) hother ?_ hrecorded
        rw [List.length_cons]
        omega
      have hbase := baseAnswers_baseOf hpipeline hcontext hdefinition heval hrecorded
      simp only [hdefinition, Result.okOr, Result.ok_bind]
      cases hresult : baseOf context (pipeline.evalStat context fuel) traces stat definition with
      | panic =>
        rw [hresult] at hbase
        exact hbase.elim
      | err error =>
        rw [hresult] at hbase
        exact hbase
      | ok based =>
        rw [hresult] at hbase
        obtain ⟨hvalue, hbased, hgrown, hpresent⟩ := hbase
        rw [Result.ok_bind]
        simp only [Answers, foldStat_fst]
        refine ⟨hvalue, ⟨fun other trace hget ↦ ?_, fun other trace hget reference hrefers ↦ ?_⟩,
          ⟨fun other trace hget ↦ ?_, fun other trace hget ↦ ?_⟩,
          ⟨_, BTreeMap.get?_insert_self ..⟩⟩
        · by_cases hsame : other = stat
          · rw [hsame, BTreeMap.get?_insert_self, Option.some.injEq] at hget
            rw [hsame, ← hget]
            exact hvalue
          · rw [BTreeMap.get?_insert_of_ne _ hsame] at hget
            exact hbased.evaluates other trace hget
        · have hinserted : ∃ found, based.2.get? reference = some found := by
            by_cases hsame : other = stat
            · obtain ⟨definition', hdefinition', hreference⟩ := hrefers
              rw [hsame, hdefinition, Option.some.injEq] at hdefinition'
              rw [← hdefinition'] at hreference
              exact hpresent reference hreference
            · rw [BTreeMap.get?_insert_of_ne _ hsame] at hget
              exact hbased.closed other trace hget reference hrefers
          by_cases hself : reference = stat
          · rw [hself]
            exact ⟨_, BTreeMap.get?_insert_self ..⟩
          · rw [BTreeMap.get?_insert_of_ne _ hself]
            exact hinserted
        · have hne : other ≠ stat := by
            rintro rfl
            rw [htrace] at hget
            cases hget
          rw [BTreeMap.get?_insert_of_ne _ hne]
          exact hgrown.kept other trace hget
        · by_cases hsame : other = stat
          · rw [hsame]
            exact Or.inr .refl
          · rw [BTreeMap.get?_insert_of_ne _ hsame] at hget
            obtain hold | ⟨reference, hreference, hreaches⟩ := hgrown.reached other trace hget
            · exact Or.inl hold
            · exact Or.inr (.head ⟨definition, hdefinition, hreference⟩ hreaches)

theorem Recorded.reaches {traces : Traces} (hrecorded : Recorded pipeline context traces)
    {other : StatId} (hreaches : Reaches pipeline stat other)
    (hstat : ∃ trace, traces.get? stat = some trace) : ∃ trace, traces.get? other = some trace := by
  induction hreaches with
  | refl => exact hstat
  | tail _ hstep ih =>
    obtain ⟨trace, htrace⟩ := ih
    exact hrecorded.closed _ trace htrace _ hstep

/-- A formula over values of the recursion fails by a zero divisor only. -/
theorem evalExpr_error (hpipeline : ValidPipeline pipeline)
    (hcontext : ValidContext pipeline context) (derived : StatId) (definition : StatDefinition)
    (expr : Expr) (values : StatId → StatValue) (location : String) (error : RulesError)
    (hdefinition : pipeline.definitions.get? derived = some definition)
    (hderived : definition.derived = some expr) (hreferences : ∀ reference ∈ expr.refs,
      Evaluates pipeline context reference (values reference))
    (herror : evalExpr (fun reference ↦ .ok (values reference)) location expr = .error error) :
    error = .at .divisionByZero location := by
  obtain ⟨domains, htyped⟩ := hpipeline.typed
  have hkinds : ∀ reference ∈ expr.refs, ∀ other,
      pipeline.definitions.get? reference = some other →
        (values reference).kind = other.kind.kind :=
    fun reference hmem other hother ↦ (hreferences reference hmem).kind hpipeline hcontext hother
  obtain ⟨value, -, -, heval⟩ | ⟨-, heval⟩ := evalExpr_typed
    (htyped derived definition expr hdefinition hderived) hkinds
    (fun reference _ ↦ (rfl : (.ok (values reference) : Except RulesError StatValue) = _)) location
  · rw [heval] at herror
    cases herror
  · rw [heval] at herror
    cases herror
    rfl

end Evaluation

/-! ### Exactness -/

/-- Evaluating a declared stat of a valid pipeline in a valid context ends, and agrees with the
plain recursion: the value is the recursion's, and each stat it reaches, no other, has one trace,
with the recursion's value; a failure is one the recursion meets, a missing base or a zero divisor,
and every failure of the recursion is met. Formulas fail by zero divisors only. -/
theorem evaluation_exact {definitions : List StatDefinition}
    {policies : BTreeMap String StackingPolicy} {pipeline : ModifierPipeline}
    (hnew : ModifierPipeline.new definitions policies = .ok pipeline) {context : QueryContext}
    (hvalid : pipeline.checkContext context = .ok ()) {stat : StatId}
    (hdeclared : pipeline.definitions.contains stat = true) :
    let result := pipeline.evalStat context (pipeline.definitions.size + 1) .empty stat
    result.Returns ∧
    (∀ value traces, result = .ok (value, traces) →
      (∀ other, Evaluates pipeline context stat other ↔ other = value) ∧
      (∀ reached, Reaches pipeline stat reached ↔ ∃ trace, traces.get? reached = some trace) ∧
      ∀ reached trace, traces.get? reached = some trace →
        ∀ other, Evaluates pipeline context reached other ↔ other = trace.value) ∧
    ((∃ error, result = .err error) ↔ ∃ error, Meets pipeline context stat error) ∧
    (∀ error, result = .err error → Meets pipeline context stat error ∧
      (error.code = .missingBase ∨ error.code = .divisionByZero)) ∧
    ∀ derived definition expr (values : StatId → StatValue) location error,
      pipeline.definitions.get? derived = some definition → definition.derived = some expr →
      (∀ reference ∈ expr.refs, Evaluates pipeline context reference (values reference)) →
      evalExpr (fun reference ↦ .ok (values reference)) location expr = .error error →
        error = .at .divisionByZero location := by
  have hpipeline := validPipeline_of_new hnew
  have hcontext := checkContext_eq_ok_iff.mp hvalid
  rw [BTreeMap.contains, Option.isSome_iff_exists] at hdeclared
  obtain ⟨definition, hdefinition⟩ := hdeclared
  have hempty : Recorded pipeline context .empty := ⟨fun _ _ h ↦ (by cases h), fun _ _ h ↦ by cases h⟩
  have hpending : Pending pipeline [] stat :=
    ⟨fun _ h ↦ absurd h List.not_mem_nil, List.nodup_nil, fun _ h ↦ absurd h List.not_mem_nil⟩
  have hfuel : pipeline.definitions.size <
      ([] : List StatId).length + (pipeline.definitions.size + 1) := by simp
  have hanswers := answers_evalStat hpipeline hcontext hpending hdefinition hfuel hempty
  intro result
  have hunique : ∀ {other : StatId} {value : StatValue}, Evaluates pipeline context other value →
      ∀ found, Evaluates pipeline context other found ↔ found = value := by
    intro other value hvalue found
    constructor
    · exact fun hfound ↦ hfound.unique hvalue
    · rintro rfl
      exact hvalue
  have hexpr := evalExpr_error hpipeline hcontext
  cases hresult : result with
  | panic =>
    rw [show pipeline.evalStat context _ _ stat = _ from hresult] at hanswers
    exact hanswers.elim
  | err error =>
    rw [show pipeline.evalStat context _ _ stat = _ from hresult] at hanswers
    refine ⟨fun h ↦ (by cases h), fun _ _ h ↦ (by cases h),
      iff_of_true ⟨error, rfl⟩ ⟨error, hanswers⟩, fun other hother ↦ ?_, hexpr⟩
    cases hother
    exact ⟨hanswers, hanswers.code⟩
  | ok answer =>
    rw [show pipeline.evalStat context _ _ stat = _ from hresult] at hanswers
    obtain ⟨hvalue, hrecorded, hgrown, hstat⟩ := hanswers
    have hno (error : RulesError) : Result.ok answer ≠ .err error := by
      intro h
      cases h
    refine ⟨fun h ↦ (by cases h), fun value traces hsame ↦ ?_,
      iff_of_false (fun h ↦ h.elim hno) ?_, fun error h ↦ absurd h (hno error), hexpr⟩
    · cases hsame
      refine ⟨hunique hvalue, fun reached ↦ ⟨fun h ↦ hrecorded.reaches h hstat, fun h ↦ ?_⟩,
        fun reached trace hget ↦ hunique (hrecorded.evaluates reached trace hget)⟩
      obtain ⟨trace, hget⟩ := h
      exact (hgrown.reached reached trace hget).resolve_left fun h ↦ by cases h
    · rintro ⟨error, hmeets⟩
      exact hmeets.not_evaluates _ hvalue

/-- A base, its successor, and their product: a diamond. -/
def diamondDefinitions : List StatDefinition :=
  [⟨2, .int, some (.binary .multiply (.stat 0) (.stat 1))⟩,
    ⟨1, .int, some (.binary .add (.stat 0) (.literal (.int 1)))⟩, ⟨0, .int, none⟩]

def diamondPipeline : ModifierPipeline :=
  ⟨.ofList (diamondDefinitions.map fun definition ↦ (definition.id, definition)), .empty⟩

/-- The base of the diamond at four. -/
def diamondContext : QueryContext :=
  ⟨⟨0, firstGeneration⟩, .ofList [(0, .int 4)], ∅, []⟩

/-- The references of a formula, by a sort that computes. -/
theorem sortedRefs_eq : Expr.sortedRefs = fun expr ↦ expr.refs.dedup.insertionSort (· ≤ ·) := by
  funext expr
  unfold Expr.sortedRefs sortDedup
  have hperm := List.perm_insertionSort (fun first second : StatId ↦ first ≤ second) expr.refs.dedup
  have hsame : expr.refs.toFinset =
      (expr.refs.dedup.insertionSort fun first second ↦ first ≤ second).toFinset := by
    ext reference
    rw [List.mem_toFinset, List.mem_toFinset, List.mem_insertionSort, List.mem_dedup]
  rw [hsame]
  apply (List.toFinset_sort _ (hperm.nodup_iff.mpr expr.refs.nodup_dedup)).mpr
  exact pairwise_insertionSort_key (fun reference : StatId ↦ reference) _

/-- The product over the base four is twenty. -/
theorem evaluation_exact_diamond :
    ∃ traces, diamondPipeline.evalStat diamondContext (diamondPipeline.definitions.size + 1)
      .empty 2 = .ok (.int 20, traces) := by
  have hnew : ModifierPipeline.new diamondDefinitions .empty = .ok diamondPipeline := by
    simp only [ModifierPipeline.new, adjacencyOf, sortedRefs_eq]
    decide +kernel
  have hvalid : diamondPipeline.checkContext diamondContext = .ok () := by decide +kernel
  have hdeclared : diamondPipeline.definitions.contains 2 = true := by decide +kernel
  have hmodified : ∀ stat base, modified diamondPipeline diamondContext stat base = base :=
    fun _ _ ↦ rfl
  let values : StatId → StatValue := fun stat ↦ if stat = 0 then .int 4 else .int 5
  have hzero : Evaluates diamondPipeline diamondContext 0 (.int 4) := by
    rw [← hmodified 0 (.int 4)]
    exact .stored (by decide +kernel : _ = some ⟨0, .int, none⟩) rfl (by decide +kernel)
  have hone : Evaluates diamondPipeline diamondContext 1 (.int 5) := by
    rw [← hmodified 1 (.int 5)]
    refine .derived values (by decide +kernel : _ = some ⟨1, .int, some (.binary .add (.stat 0)
      (.literal (.int 1)))⟩) rfl (fun reference hmem ↦ ?_) (by decide +kernel)
    rw [List.mem_singleton.mp hmem]
    exact hzero
  have htwo : Evaluates diamondPipeline diamondContext 2 (.int 20) := by
    rw [← hmodified 2 (.int 20)]
    refine .derived values (by decide +kernel : _ = some ⟨2, .int, some (.binary .multiply (.stat 0)
      (.stat 1))⟩) rfl (fun reference hmem ↦ ?_) (by decide +kernel)
    obtain rfl | rfl : reference = 0 ∨ reference = 1 := by
      rw [← List.mem_pair]
      exact hmem
    · exact hzero
    · exact hone
  obtain ⟨hreturns, hvalue, hfails, -⟩ := evaluation_exact hnew hvalid hdeclared
  cases hresult : diamondPipeline.evalStat diamondContext (diamondPipeline.definitions.size + 1)
      .empty 2 with
  | ok answer =>
    have hsame := ((hvalue _ _ hresult).1 (.int 20)).mp htwo
    exact ⟨answer.2, by rw [hsame]⟩
  | err error =>
    obtain ⟨met, hmeets⟩ := hfails.mp ⟨error, hresult⟩
    exact absurd htwo (hmeets.not_evaluates _)
  | panic => exact absurd hresult hreturns

end Crpg.Rules
