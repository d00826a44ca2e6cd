import Mathlib.Data.Finset.Sort
import Crpg.Lib.IndexMap
import Crpg.Rules.Dice

/-!
# Typed stats

`crpg-rules/src/stats.rs`. Stat values and kinds, derived expressions, definitions and the
insertion-ordered block of base values. The six binary operators of the source's `Expr` are one
constructor with the operator as a field.
-/

set_option autoImplicit false

namespace Crpg.Rules

open Crpg.Core Crpg.Lib

/-- The tag set attached to one entity for condition evaluation. -/
abbrev TagSet := Finset TagId

/-- A list sorted and without repetitions: `sort` and then `dedup`. -/
def sortDedup {α : Type*} [LinearOrder α] (items : List α) : List α :=
  items.toFinset.sort (· ≤ ·)

structure EnumValue where
  enumId : String
  variant : String
deriving DecidableEq

inductive StatValue
  | int (value : ℤ)
  | fixed (value : Fx16)
  | bool (value : Bool)
  | enum (value : EnumValue)
  | tags (value : TagSet)
  | dice (value : DiceExpr)
deriving DecidableEq

inductive StatKind
  | int
  | fixed
  | bool
  | enum (enumId : String) (variants : Finset String)
  | tags
  | dice
deriving DecidableEq

inductive ValueKind
  | int
  | fixed
  | bool
  | enum
  | tags
  | dice
deriving DecidableEq

def StatValue.kind : StatValue → ValueKind
  | .int _ => .int
  | .fixed _ => .fixed
  | .bool _ => .bool
  | .enum _ => .enum
  | .tags _ => .tags
  | .dice _ => .dice

/-- The discriminant of a declaration. -/
def StatKind.kind : StatKind → ValueKind
  | .int => .int
  | .fixed => .fixed
  | .bool => .bool
  | .enum _ _ => .enum
  | .tags => .tags
  | .dice => .dice

/-- The six binary expression operators. -/
inductive BinaryOp
  | add
  | subtract
  | multiply
  | divide
  | min
  | max
deriving DecidableEq

inductive Expr
  | literal (value : StatValue)
  | stat (id : StatId)
  | binary (op : BinaryOp) (left right : Expr)
deriving DecidableEq

structure StatDefinition where
  id : StatId
  kind : StatKind
  derived : Option Expr
deriving DecidableEq

def checkStandaloneValue : StatValue → Except RulesErrorCode Unit
  | .int _ => .ok ()
  | .fixed _ => .ok ()
  | .bool _ => .ok ()
  | .dice _ => .ok ()
  | .enum entry =>
    if entry.enumId.isEmpty ∨ entry.variant.isEmpty then .error .invalidName else .ok ()
  | .tags tags => if tags.card > maxTags then .error .limitExceeded else .ok ()

/-- An insertion-ordered map from stat identities to base values. -/
abbrev StatBlock := IndexMap StatId StatValue

namespace StatBlock

def insertChecked (block : StatBlock) (stat : StatId) (value : StatValue) :
    Except RulesError StatBlock :=
  match checkStandaloneValue value with
  | .error code => .error (.at code ("/stats/" ++ toString stat))
  | .ok () =>
    if ¬block.contains stat ∧ block.len ≥ maxStats then .error (.at .limitExceeded "/stats")
    else .ok (block.insert stat value)

end StatBlock

namespace Expr

def refs : Expr → List StatId
  | literal _ => []
  | stat id => [id]
  | binary _ left right => left.refs ++ right.refs

/-- `sorted_expr_refs`: the references, sorted and without repetitions. -/
def sortedRefs (expr : Expr) : List StatId := sortDedup expr.refs

/-- `measure_expr`: the node count and the tree depth, the root at depth one. -/
def measure : Expr → ℕ × ℕ
  | literal _ => (1, 1)
  | stat _ => (1, 1)
  | binary _ left right =>
    (left.measure.1 + right.measure.1 + 1, max left.measure.2 right.measure.2 + 1)

/-- `max_tags_literal`: the largest tag literal inside an expression. -/
def maxTagsLiteral : Expr → ℕ
  | literal (.tags tags) => tags.card
  | literal _ => 0
  | stat _ => 0
  | binary _ left right => max left.maxTagsLiteral right.maxTagsLiteral

/-- The nodes of an expression in preorder. -/
def preorder : Expr → List Expr
  | literal value => [literal value]
  | stat id => [stat id]
  | binary op left right => binary op left right :: (left.preorder ++ right.preorder)

end Expr

end Crpg.Rules
