import Crpg.Rules.Stats

/-!
# Derived stats

`crpg-rules/src/derived.rs`. Integer arithmetic that saturates per operation, expression evaluation
over a lookup, and the two graph checks of a definition set: the first directed cycle in an
ascending depth-first search, and the smallest stat whose longest dependency path is too long. Both
searches are the source's loops over explicit stacks and queues, with fuel; `none` would be a loop
without end.
-/

set_option autoImplicit false

namespace Crpg.Rules

open Crpg.Core Crpg.Lib

/-! ### Arithmetic -/

/-- Saturating integer addition. -/
def intAdd (left right : ℤ) : ℤ := clampI32 (left + right)

/-- Saturating integer subtraction. -/
def intSubtract (left right : ℤ) : ℤ := clampI32 (left - right)

/-- Saturating integer multiplication. -/
def intMultiply (left right : ℤ) : ℤ := clampI32 (left * right)

/-- Flooring integer division: `none` on a zero divisor, saturating `MIN / -1`. -/
def intDivide (left right : ℤ) : Option ℤ :=
  if right = 0 then none
  else if left = i32Min ∧ right = -1 then some i32Max
  else
    let quotient := left.tdiv right
    if left.tmod right ≠ 0 ∧ decide (left < 0) ≠ decide (right < 0) then some (quotient - 1)
    else some quotient

/-- Integer scaling by a fixed factor, floored and clamped. -/
def intScale (value : ℤ) (factor : Fx16) : ℤ :=
  let product := value * factor.raw
  let quotient := product.tdiv 65536
  clampI32 (if product.tmod 65536 ≠ 0 ∧ product < 0 then quotient - 1 else quotient)

/-- An operator on two integers; `none` is a zero divisor. -/
def onInt : BinaryOp → ℤ → ℤ → Option ℤ
  | .add, left, right => some (intAdd left right)
  | .subtract, left, right => some (intSubtract left right)
  | .multiply, left, right => some (intMultiply left right)
  | .divide, left, right => intDivide left right
  | .min, left, right => some (min left right)
  | .max, left, right => some (max left right)

/-- The smaller of two fixed values. -/
def fixedMin (left right : Fx16) : Fx16 := if right.raw < left.raw then right else left

/-- The larger of two fixed values. -/
def fixedMax (left right : Fx16) : Fx16 := if right.raw < left.raw then left else right

/-- An operator on two fixed values; `none` is a zero divisor. -/
def onFixed : BinaryOp → Fx16 → Fx16 → Option Fx16
  | .add, left, right => some (left.saturatingAdd right)
  | .subtract, left, right => some (left.saturatingSub right)
  | .multiply, left, right => some (left.saturatingMul right)
  | .divide, left, right => if right = Fx16.zero then none else some (left.saturatingDiv right)
  | .min, left, right => some (fixedMin left right)
  | .max, left, right => some (fixedMax left right)

/-- Applies one binary operator to two evaluated operands. -/
def applyBinary (op : BinaryOp) (left right : StatValue) (location : String) :
    Except RulesError StatValue :=
  match left, right with
  | .int a, .int b =>
    match onInt op a b with
    | some value => .ok (.int value)
    | none => .error (.at .divisionByZero location)
  | .fixed a, .fixed b =>
    match onFixed op a b with
    | some value => .ok (.fixed value)
    | none => .error (.at .divisionByZero location)
  | _, _ => .error (.at .typeMismatch location)

/-- Evaluates an expression with references resolved by `lookup`, left before right. -/
def evalExpr (lookup : StatId → Except RulesError StatValue) (location : String) :
    Expr → Except RulesError StatValue
  | .literal value => .ok value
  | .stat id => lookup id
  | .binary op left right =>
    match evalExpr lookup location left with
    | .error error => .error error
    | .ok a =>
      match evalExpr lookup location right with
      | .error error => .error error
      | .ok b => applyBinary op a b location

/-! ### Cycles -/

/-- The dependency graph of a definition set. -/
abbrev Adjacency := BTreeMap StatId (List StatId)

/-- The colours of the depth-first search. -/
inductive Color
  | white
  | gray
  | black
deriving DecidableEq

/-- The state of one depth-first search from a root. -/
structure Search where
  color : BTreeMap StatId Color
  path : List StatId
  stack : List (StatId × ℕ)

/-- Rotates a cycle, given without its closing vertex, to its smallest stat and closes it. -/
def rotateCycle (body : List StatId) : List StatId :=
  match body with
  | [] => []
  | first :: rest =>
    let least := rest.foldl min first
    let rotated := body.rotate (body.idxOf least)
    rotated ++ [least]

/-- The loop of one root. The stack holds its top first; the path holds the root first. A returned
cycle ends the search. -/
def searchFrom (adjacency : Adjacency) : ℕ → Search → Option (Option (List StatId) × Search)
  | 0, _ => none
  | fuel + 1, search =>
    match search.stack with
    | [] => some (none, search)
    | (node, child) :: rest =>
      let neighbours := (adjacency.get? node).getD []
      match neighbours[child]? with
      | some next =>
        let stack := (node, child + 1) :: rest
        match (search.color.get? next).getD .black with
        | .gray =>
          let start := search.path.idxOf next
          let start := if start < search.path.length then start else 0
          some (some (rotateCycle (search.path.drop start)), search)
        | .white => searchFrom adjacency fuel
            { color := search.color.insert next .gray
              path := search.path ++ [next]
              stack := (next, 0) :: stack }
        | .black => searchFrom adjacency fuel { search with stack := stack }
      | none => searchFrom adjacency fuel
          { color := search.color.insert node .black
            path := search.path.dropLast
            stack := rest }

/-- The number of loop steps one root can take: each vertex once, each edge once, and the end. -/
def searchFuel (adjacency : Adjacency) : ℕ :=
  adjacency.sum (fun refs ↦ refs.length + 1) + 1

/-- The search over the roots in ascending order. -/
def searchRoots (adjacency : Adjacency) :
    List StatId → BTreeMap StatId Color → Option (Option (List StatId))
  | [], _ => some none
  | root :: roots, color =>
    match color.get? root with
    | some .white =>
      match searchFrom adjacency (searchFuel adjacency)
          ⟨color.insert root .gray, [root], [(root, 0)]⟩ with
      | none => none
      | some (some cycle, _) => some (some cycle)
      | some (none, search) => searchRoots adjacency roots search.color
    | _ => searchRoots adjacency roots color

/-- `find_cycle`: the first directed cycle, rotated to its smallest stat. -/
def findCycle (adjacency : Adjacency) : Option (Option (List StatId)) :=
  searchRoots adjacency adjacency.keys (adjacency.mapValues fun _ _ ↦ .white)

/-! ### Depth -/

structure Walk where
  indegree : BTreeMap StatId ℕ
  longest : BTreeMap StatId ℕ
  queue : List StatId

def dependentsOf (adjacency : Adjacency) : BTreeMap StatId (List StatId) :=
  adjacency.entries.foldl (fun dependents entry ↦
    entry.2.foldl (fun dependents reference ↦
      dependents.insert reference ((dependents.get? reference).getD [] ++ [entry.1])) dependents)
    BTreeMap.empty

/-- The number of references of each stat. -/
def indegreeOf (adjacency : Adjacency) : BTreeMap StatId ℕ :=
  adjacency.mapValues fun _ refs ↦ refs.length

/-- One dependent of a processed node: its path is at least one longer, and it is ready when its
last reference is processed. -/
def relax (base : ℕ) (walk : Walk) (dependent : StatId) : Walk :=
  let longest := walk.longest.insert dependent
    (max ((walk.longest.get? dependent).getD 1) (base + 1))
  match walk.indegree.get? dependent with
  | none => { walk with longest := longest }
  | some remaining =>
    { indegree := walk.indegree.insert dependent (remaining - 1)
      longest := longest
      queue := if remaining - 1 = 0 then walk.queue ++ [dependent] else walk.queue }

def walkQueue (dependents : BTreeMap StatId (List StatId)) : ℕ → Walk → Option Walk
  | 0, _ => none
  | fuel + 1, walk =>
    match walk.queue with
    | [] => some walk
    | node :: queue =>
      let base := max ((walk.longest.get? node).getD 1) 1
      let entered : Walk := { walk with longest := walk.longest.insert node base, queue := queue }
      let next := ((dependents.get? node).getD []).insertionSort (· ≤ ·)
      walkQueue dependents fuel (next.foldl (relax base) entered)

/-- `over_depth_stat`: the smallest stat whose longest dependency path exceeds the bound. -/
def overDepthStat (adjacency : Adjacency) : Option (Option StatId) :=
  let indegree := indegreeOf adjacency
  let ready := (indegree.filter fun _ degree ↦ degree = 0).keys
  match walkQueue (dependentsOf adjacency) (adjacency.size + 1)
      ⟨indegree, BTreeMap.empty, ready⟩ with
  | none => none
  | some walk => some (walk.longest.filter fun _ length ↦ length > maxDerivedDepth).keys.head?

end Crpg.Rules
