import Mathlib.Logic.Relation
import Crpg.Rules.Definitions

/-!
# What a stat is worth

The reference semantics of stats, without a memo. A stored stat starts from its base value, a
derived one from its formula over the fully modified values of its references, and the retained
modifiers are folded on in their order (`Evaluates`). `Meets` says that the recursion meets a stat
without a base value or a formula that divides by zero. A stat has at most one value, and not both a
value and a failure; in a valid pipeline every value has its declared kind.
-/

set_option autoImplicit false

namespace Crpg.Rules

open Crpg.Core Crpg.Lib

/-! ### Formulas -/

/-- The value of a formula over the values of its references; `none` has no value. -/
def Expr.denote (values : StatId → StatValue) : Expr → Option StatValue
  | .literal value => some value
  | .stat id => some (values id)
  | .binary op left right =>
    match left.denote values, right.denote values with
    | some (.int a), some (.int b) => (onInt op a b).map .int
    | some (.fixed a), some (.fixed b) => (onFixed op a b).map .fixed
    | _, _ => none

/-- A formula divides by zero, in one of its parts or at its root. -/
inductive DividesByZero (values : StatId → StatValue) : Expr → Prop
  | left {op : BinaryOp} {left right : Expr} (hleft : DividesByZero values left) :
      DividesByZero values (.binary op left right)
  | right {op : BinaryOp} {left right : Expr} {value : StatValue}
      (hleft : left.denote values = some value) (hright : DividesByZero values right) :
      DividesByZero values (.binary op left right)
  | int {left right : Expr} {dividend : ℤ} (hleft : left.denote values = some (.int dividend))
      (hright : right.denote values = some (.int 0)) :
      DividesByZero values (.binary .divide left right)
  | fixed {left right : Expr} {dividend : Fx16}
      (hleft : left.denote values = some (.fixed dividend))
      (hright : right.denote values = some (.fixed .zero)) :
      DividesByZero values (.binary .divide left right)

theorem onInt_eq_none_iff {op : BinaryOp} {left right : ℤ} :
    onInt op left right = none ↔ op = .divide ∧ right = 0 := by
  cases op with
  | add => exact iff_of_false nofun nofun
  | subtract => exact iff_of_false nofun nofun
  | multiply => exact iff_of_false nofun nofun
  | min => exact iff_of_false nofun nofun
  | max => exact iff_of_false nofun nofun
  | divide =>
    show intDivide left right = none ↔ _
    unfold intDivide
    split_ifs with hzero
    · exact iff_of_true rfl ⟨rfl, hzero⟩
    · exact iff_of_false nofun fun h ↦ hzero h.2
    · exact iff_of_false nofun fun h ↦ hzero h.2
    · exact iff_of_false nofun fun h ↦ hzero h.2

theorem onFixed_eq_none_iff {op : BinaryOp} {left right : Fx16} :
    onFixed op left right = none ↔ op = .divide ∧ right = .zero := by
  cases op with
  | add => exact iff_of_false nofun nofun
  | subtract => exact iff_of_false nofun nofun
  | multiply => exact iff_of_false nofun nofun
  | min => exact iff_of_false nofun nofun
  | max => exact iff_of_false nofun nofun
  | divide =>
    rw [onFixed]
    split_ifs with hzero
    · exact iff_of_true rfl ⟨rfl, hzero⟩
    · exact iff_of_false nofun fun h ↦ hzero h.2

theorem DividesByZero.denote_eq_none {values : StatId → StatValue} {expr : Expr}
    (hzero : DividesByZero values expr) : expr.denote values = none := by
  induction hzero with
  | left _ ih => rw [Expr.denote, ih]
  | right hleft _ ih =>
    rw [Expr.denote, hleft, ih]
    split
    · rename_i heq
      cases heq
    · rename_i heq
      cases heq
    · rfl
  | int hleft hright =>
    rw [Expr.denote, hleft, hright]
    simp only [onInt_eq_none_iff.mpr ⟨rfl, rfl⟩, Option.map_none]
  | fixed hleft hright =>
    rw [Expr.denote, hleft, hright]
    simp only [onFixed_eq_none_iff.mpr ⟨rfl, rfl⟩, Option.map_none]

/-- A formula sees its references only. -/
theorem Expr.denote_congr {values others : StatId → StatValue} {expr : Expr}
    (hsame : ∀ reference ∈ expr.refs, values reference = others reference) :
    expr.denote values = expr.denote others := by
  induction expr with
  | literal value => rfl
  | stat id => exact congrArg some (hsame id (List.mem_singleton.mpr rfl))
  | binary op left right hleft hright =>
    rw [denote, denote, hleft fun reference hmem ↦ hsame reference (List.mem_append_left _ hmem),
      hright fun reference hmem ↦ hsame reference (List.mem_append_right _ hmem)]

theorem int_of_kind {value : StatValue} (hkind : value.kind = .int) :
    ∃ number, value = .int number := by
  cases value with
  | int number => exact ⟨number, rfl⟩
  | fixed number => cases hkind
  | bool flag => cases hkind
  | enum entry => cases hkind
  | tags tags => cases hkind
  | dice dice => cases hkind

theorem fixed_of_kind {value : StatValue} (hkind : value.kind = .fixed) :
    ∃ number, value = .fixed number := by
  cases value with
  | fixed number => exact ⟨number, rfl⟩
  | int number => cases hkind
  | bool flag => cases hkind
  | enum entry => cases hkind
  | tags tags => cases hkind
  | dice dice => cases hkind

/-- The two ways a binary formula is typed. -/
theorem exprKind_binary {table : DefinitionTable} {domains : Domains} {op : BinaryOp}
    {left right : Expr} {kind : StatKind}
    (hkind : exprKind table domains (.binary op left right) = some kind) :
    (kind = .int ∧ exprKind table domains left = some .int ∧
      exprKind table domains right = some .int) ∨
    (kind = .fixed ∧ exprKind table domains left = some .fixed ∧
      exprKind table domains right = some .fixed) := by
  rw [exprKind] at hkind
  split at hkind
  · rename_i hleft hright
    exact Or.inl ⟨(Option.some.inj hkind).symm, hleft, hright⟩
  · rename_i hleft hright
    exact Or.inr ⟨(Option.some.inj hkind).symm, hleft, hright⟩
  · cases hkind

/-- A typed formula over typed references has a value of its kind, and evaluation returns it, or it
divides by zero, and evaluation says so. -/
theorem evalExpr_typed {table : DefinitionTable} {domains : Domains} {expr : Expr} {kind : StatKind}
    (hkind : exprKind table domains expr = some kind) {values : StatId → StatValue}
    (htyped : ∀ reference ∈ expr.refs, ∀ definition, table.get? reference = some definition →
      (values reference).kind = definition.kind.kind)
    {lookup : StatId → Except RulesError StatValue}
    (hlookup : ∀ reference ∈ expr.refs, lookup reference = .ok (values reference))
    (location : String) : (∃ value, expr.denote values = some value ∧ value.kind = kind.kind ∧
      evalExpr lookup location expr = .ok value) ∨ (DividesByZero values expr ∧
      evalExpr lookup location expr = .error (.at .divisionByZero location)) := by
  induction expr generalizing kind with
  | literal value =>
    refine Or.inl ⟨value, rfl, ?_, rfl⟩
    cases value with
    | int number => cases hkind; rfl
    | fixed number => cases hkind; rfl
    | bool flag => cases hkind; rfl
    | tags tags => cases hkind; rfl
    | dice dice => cases hkind; rfl
    | enum entry =>
      rw [exprKind, Option.map_eq_some_iff] at hkind
      obtain ⟨variants, -, rfl⟩ := hkind
      rfl
  | stat id =>
    have hmem : id ∈ (Expr.stat id).refs := List.mem_singleton.mpr rfl
    rw [exprKind, Option.map_eq_some_iff] at hkind
    obtain ⟨definition, hdefinition, rfl⟩ := hkind
    exact Or.inl ⟨values id, rfl, htyped id hmem definition hdefinition, hlookup id hmem⟩
  | binary op left right hleft hright =>
    have hleft' : ∀ {kind}, exprKind table domains left = some kind → _ := fun hkind ↦
      hleft hkind (fun reference hmem ↦ htyped reference (List.mem_append_left _ hmem))
        (fun reference hmem ↦ hlookup reference (List.mem_append_left _ hmem))
    have hright' : ∀ {kind}, exprKind table domains right = some kind → _ := fun hkind ↦
      hright hkind (fun reference hmem ↦ htyped reference (List.mem_append_right _ hmem))
        (fun reference hmem ↦ hlookup reference (List.mem_append_right _ hmem))
    have hoperands : ∃ operand, kind = operand ∧ exprKind table domains left = some operand ∧
        exprKind table domains right = some operand ∧ (operand = .int ∨ operand = .fixed) := by
      obtain ⟨rfl, hl, hr⟩ | ⟨rfl, hl, hr⟩ := exprKind_binary hkind
      · exact ⟨_, rfl, hl, hr, Or.inl rfl⟩
      · exact ⟨_, rfl, hl, hr, Or.inr rfl⟩
    obtain ⟨operand, rfl, hl, hr, hnumeric⟩ := hoperands
    obtain ⟨first, hfirst, hfirstKind, hevalFirst⟩ | ⟨hzero, hevalFirst⟩ := hleft' hl
    · obtain ⟨second, hsecond, hsecondKind, hevalSecond⟩ | ⟨hzero, hevalSecond⟩ := hright' hr
      · simp only [evalExpr, hevalFirst, hevalSecond, Expr.denote, hfirst, hsecond]
        cases hnumeric with
        | inl hint =>
          subst hint
          obtain ⟨a, rfl⟩ := int_of_kind hfirstKind
          obtain ⟨b, rfl⟩ := int_of_kind hsecondKind
          simp only [applyBinary]
          cases hresult : onInt op a b with
          | some result => exact Or.inl ⟨_, rfl, rfl, rfl⟩
          | none =>
            obtain ⟨rfl, rfl⟩ := onInt_eq_none_iff.mp hresult
            exact Or.inr ⟨.int hfirst hsecond, rfl⟩
        | inr hfixed =>
          subst hfixed
          obtain ⟨a, rfl⟩ := fixed_of_kind hfirstKind
          obtain ⟨b, rfl⟩ := fixed_of_kind hsecondKind
          simp only [applyBinary]
          cases hresult : onFixed op a b with
          | some result => exact Or.inl ⟨_, rfl, rfl, rfl⟩
          | none =>
            obtain ⟨rfl, rfl⟩ := onFixed_eq_none_iff.mp hresult
            exact Or.inr ⟨.fixed hfirst hsecond, rfl⟩
      · refine Or.inr ⟨.right hfirst hzero, ?_⟩
        simp only [evalExpr, hevalFirst, hevalSecond]
    · refine Or.inr ⟨.left hzero, ?_⟩
      simp only [evalExpr, hevalFirst]

/-! ### Modified values -/

def modified (pipeline : ModifierPipeline) (context : QueryContext) (stat : StatId)
    (base : StatValue) : StatValue :=
  (retainedOf (Selection.selectTargeting pipeline.policies context.tags
    (targetingOf context.modifiers (.stat stat)))
    (targetingOf context.modifiers (.stat stat))).foldl
      (fun running modifier ↦ applyModifier running modifier.op) base

theorem foldStat_fst (pipeline : ModifierPipeline) (context : QueryContext) (stat : StatId)
    (base : StatValue) : (foldStat pipeline.policies context.tags base
      (targetingOf context.modifiers (.stat stat))).1 = modified pipeline context stat base := by
  have hfold : ∀ order : List Modifier, (foldRetained applyModifier base order).1 =
      order.foldl (fun running modifier ↦ applyModifier running modifier.op) base := by
    intro order
    unfold foldRetained
    symm
    show order.foldl _ (base, (BTreeMap.empty : BTreeMap Ulid (StatValue × StatValue))).1 = _
    apply List.foldl_hom (Prod.fst : StatValue × BTreeMap Ulid (StatValue × StatValue) → StatValue)
    exact fun _ _ ↦ rfl
  exact hfold _

theorem applyModifier_kind {running : StatValue} {op : ModOp}
    (hset : ∀ value, op = .set value → value.kind = running.kind) :
    (applyModifier running op).kind = running.kind := by
  cases op with
  | set value => exact hset value rfl
  | add value =>
    unfold applyModifier
    dsimp only
    split
    · rfl
    · rfl
    · rfl
  | multiply factor =>
    unfold applyModifier
    dsimp only
    split
    · rfl
    · rfl
    · rfl
  | clamp lo hi =>
    unfold applyModifier
    dsimp only
    split
    · rfl
    · rfl
    · rfl

theorem kind_of_checkKind {value : StatValue} {kind : StatKind} {location : String}
    (hcheck : ModifierPipeline.checkKind value kind location = .ok ()) :
    value.kind = kind.kind := by
  unfold ModifierPipeline.checkKind at hcheck
  split_ifs at hcheck with hkind
  exact not_not.mp hkind

namespace ModifierPipeline

variable {pipeline : ModifierPipeline} {context : QueryContext} {stat : StatId}
  {definition : StatDefinition}

theorem ValidContext.modified_kind (hvalid : ValidContext pipeline context)
    (hdefinition : pipeline.definitions.get? stat = some definition) {base : StatValue}
    (hbase : base.kind = definition.kind.kind) :
    (modified pipeline context stat base).kind = definition.kind.kind := by
  unfold modified
  have hset : ∀ modifier ∈ retainedOf (Selection.selectTargeting pipeline.policies context.tags
      (targetingOf context.modifiers (.stat stat))) (targetingOf context.modifiers (.stat stat)),
      ∀ value, modifier.op = .set value → value.kind = definition.kind.kind := by
    intro modifier hmem value hop
    rw [retainedOf, List.mem_insertionSort, List.mem_filter] at hmem
    obtain ⟨hin, htarget⟩ := ValidContext.mem_targeting.mp hmem.1
    obtain ⟨kind, stacking, hmodifier⟩ := hvalid.validModifier hin
    have hkind := hmodifier.target
    rw [htarget, targetKind, hdefinition] at hkind
    obtain rfl : definition.kind = kind := Result.ok.inj hkind
    have hoperands := hmodifier.operands
    rw [hop] at hoperands
    exact kind_of_checkKind hoperands
  generalize retainedOf _ _ = order at hset ⊢
  induction order generalizing base with
  | nil => exact hbase
  | cons modifier rest ih =>
    rw [List.foldl_cons]
    apply ih
    · rw [applyModifier_kind fun value hop ↦ ?_]
      · exact hbase
      · rw [hbase]
        exact hset modifier (List.mem_cons_self ..) value hop
    · exact fun other hother ↦ hset other (List.mem_cons_of_mem _ hother)

theorem ValidContext.stored_kind (hvalid : ValidContext pipeline context)
    (hdefinition : pipeline.definitions.get? stat = some definition) {base : StatValue}
    (hbase : context.stats.get? stat = some base) : base.kind = definition.kind.kind := by
  have hcheck := hvalid.stored (stat, base) (IndexMap.mem_entries_iff.mpr hbase)
  simp only [checkStored, hdefinition] at hcheck
  split_ifs at hcheck
  exact kind_of_checkKind hcheck

end ModifierPipeline

/-! ### Reference semantics -/

section Semantics

variable (pipeline : ModifierPipeline) (context : QueryContext)

inductive Evaluates : StatId → StatValue → Prop
  | stored {stat : StatId} {definition : StatDefinition} {base : StatValue}
      (hdefinition : pipeline.definitions.get? stat = some definition)
      (hstored : definition.derived = none) (hbase : context.stats.get? stat = some base) :
      Evaluates stat (modified pipeline context stat base)
  | derived {stat : StatId} {definition : StatDefinition} {expr : Expr} {base : StatValue}
      (values : StatId → StatValue)
      (hdefinition : pipeline.definitions.get? stat = some definition)
      (hderived : definition.derived = some expr)
      (hreferences : ∀ reference ∈ expr.refs, Evaluates reference (values reference))
      (hbase : expr.denote values = some base) :
      Evaluates stat (modified pipeline context stat base)

inductive Meets : StatId → RulesError → Prop
  | missing {stat : StatId} {definition : StatDefinition}
      (hdefinition : pipeline.definitions.get? stat = some definition)
      (hstored : definition.derived = none) (hbase : context.stats.get? stat = none) :
      Meets stat (.at .missingBase ("/stats/" ++ toString stat))
  | divides {stat : StatId} {definition : StatDefinition} {expr : Expr}
      (values : StatId → StatValue)
      (hdefinition : pipeline.definitions.get? stat = some definition)
      (hderived : definition.derived = some expr)
      (hreferences : ∀ reference ∈ expr.refs, Evaluates pipeline context reference
        (values reference))
      (hzero : DividesByZero values expr) :
      Meets stat (.at .divisionByZero ("/stats/" ++ toString stat))
  | reference {stat reference : StatId} {definition : StatDefinition} {expr : Expr}
      {error : RulesError} (hdefinition : pipeline.definitions.get? stat = some definition)
      (hderived : definition.derived = some expr) (hreference : reference ∈ expr.refs)
      (hmeets : Meets reference error) : Meets stat error

variable {pipeline context} {stat : StatId}

theorem Evaluates.unique {value other : StatValue} (hvalue : Evaluates pipeline context stat value)
    (hother : Evaluates pipeline context stat other) : value = other := by
  induction hvalue generalizing other with
  | stored hdefinition hstored hbase =>
    cases hother with
    | stored hdefinition' hstored' hbase' =>
      rw [hbase, Option.some.injEq] at hbase'
      rw [hbase']
    | derived values hdefinition' hderived =>
      rw [hdefinition, Option.some.injEq] at hdefinition'
      rw [← hdefinition', hstored] at hderived
      cases hderived
  | derived values hdefinition hderived _ hbase ih =>
    cases hother with
    | stored hdefinition' hstored =>
      rw [hdefinition, Option.some.injEq] at hdefinition'
      rw [← hdefinition', hderived] at hstored
      cases hstored
    | derived others hdefinition' hderived' hreferences hbase' =>
      rw [hdefinition, Option.some.injEq] at hdefinition'
      rw [← hdefinition', hderived, Option.some.injEq] at hderived'
      subst hderived'
      rw [Expr.denote_congr fun reference hmem ↦ ih reference hmem (hreferences reference hmem),
        hbase', Option.some.injEq] at hbase
      rw [hbase]

theorem Meets.not_evaluates {error : RulesError} (hmeets : Meets pipeline context stat error)
    (value : StatValue) : ¬Evaluates pipeline context stat value := by
  intro hvalue
  induction hmeets generalizing value with
  | missing hdefinition hstored hbase =>
    cases hvalue with
    | stored _ _ hbase' =>
      rw [hbase] at hbase'
      cases hbase'
    | derived _ hdefinition' hderived =>
      rw [hdefinition, Option.some.injEq] at hdefinition'
      rw [← hdefinition', hstored] at hderived
      cases hderived
  | divides values hdefinition hderived hreferences hzero =>
    cases hvalue with
    | stored hdefinition' hstored =>
      rw [hdefinition, Option.some.injEq] at hdefinition'
      rw [← hdefinition', hderived] at hstored
      cases hstored
    | derived others hdefinition' hderived' hreferences' hbase =>
      rw [hdefinition, Option.some.injEq] at hdefinition'
      rw [← hdefinition', hderived, Option.some.injEq] at hderived'
      subst hderived'
      rw [Expr.denote_congr fun reference hmem ↦
        (hreferences' reference hmem).unique (hreferences reference hmem), hzero.denote_eq_none]
        at hbase
      cases hbase
  | reference hdefinition hderived hreference _ ih =>
    cases hvalue with
    | stored hdefinition' hstored =>
      rw [hdefinition, Option.some.injEq] at hdefinition'
      rw [← hdefinition', hderived] at hstored
      cases hstored
    | derived others hdefinition' hderived' hreferences =>
      rw [hdefinition, Option.some.injEq] at hdefinition'
      rw [← hdefinition', hderived, Option.some.injEq] at hderived'
      subst hderived'
      exact ih _ (hreferences _ hreference)

theorem Meets.code {error : RulesError} (hmeets : Meets pipeline context stat error) :
    error.code = .missingBase ∨ error.code = .divisionByZero := by
  induction hmeets with
  | missing => exact Or.inl rfl
  | divides => exact Or.inr rfl
  | reference _ _ _ _ ih => exact ih

open ModifierPipeline in
/-- Values have their declared kinds. Assumes: a valid pipeline and a valid context. -/
theorem Evaluates.kind (hpipeline : ValidPipeline pipeline) (hcontext : ValidContext pipeline context)
    {value : StatValue} (hvalue : Evaluates pipeline context stat value)
    {definition : StatDefinition} (hdefinition : pipeline.definitions.get? stat = some definition) :
    value.kind = definition.kind.kind := by
  obtain ⟨domains, htyped⟩ := hpipeline.typed
  induction hvalue generalizing definition with
  | stored _ _ hbase =>
    exact hcontext.modified_kind hdefinition (hcontext.stored_kind hdefinition hbase)
  | derived values hdefinition' hderived _ hbase ih =>
    rw [hdefinition, Option.some.injEq] at hdefinition'
    subst hdefinition'
    apply hcontext.modified_kind hdefinition
    obtain ⟨found, hfound, hkind, -⟩ | ⟨hzero, -⟩ := @evalExpr_typed _ _ _ _
      (htyped _ _ _ hdefinition hderived) values
      (fun reference hmem other hother ↦ ih reference hmem hother)
      (fun reference ↦ .ok (values reference)) (fun _ _ ↦ rfl) ""
    · rw [hfound, Option.some.injEq] at hbase
      rw [← hbase]
      exact hkind
    · rw [hzero.denote_eq_none] at hbase
      cases hbase

end Semantics

end Crpg.Rules
