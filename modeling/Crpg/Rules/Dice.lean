import Mathlib.Data.List.Sort
import Crpg.Core.Arena
import Crpg.Core.Fixed
import Crpg.Core.Rng
import Crpg.Lib.Decimal
import Crpg.Rules.Error

/-!
# Dice expressions

`crpg-rules/src/dice.rs`. A `DiceExpr` carries the proof that its count, sides and selection are in
range, which is what the constructor checks. Evaluation draws every die in order from a named
stream, marks the kept ones and clamps the kept sum plus offset to `i32` once. The notation is read
byte by byte as the source's parser reads it, with the byte offset of the first fault.
-/

set_option autoImplicit false

namespace Crpg.Rules

open Crpg.Core

/-- Which dice of a group contribute to the total. -/
inductive DiceSelection
  | all
  | keepHighest (kept : ℕ)
  | keepLowest (kept : ℕ)
  | dropHighest (dropped : ℕ)
  | dropLowest (dropped : ℕ)
deriving DecidableEq

/-- A selection fits a group of `count` dice. -/
def DiceSelection.Fits (count : ℕ) : DiceSelection → Prop
  | all => True
  | keepHighest kept => 1 ≤ kept ∧ kept ≤ count
  | keepLowest kept => 1 ≤ kept ∧ kept ≤ count
  | dropHighest dropped => dropped < count
  | dropLowest dropped => dropped < count

instance (count : ℕ) (selection : DiceSelection) : Decidable (selection.Fits count) :=
  match selection with
  | .all => isTrue trivial
  | .keepHighest _ => inferInstanceAs (Decidable (_ ∧ _))
  | .keepLowest _ => inferInstanceAs (Decidable (_ ∧ _))
  | .dropHighest _ => inferInstanceAs (Decidable (_ < _))
  | .dropLowest _ => inferInstanceAs (Decidable (_ < _))

/-- One bounded dice expression. -/
structure DiceExpr where
  count : ℕ
  sides : ℕ
  selection : DiceSelection
  offset : ℤ
  count_pos : 0 < count
  count_le : count ≤ maxDiceCount
  sides_pos : 0 < sides
  sides_le : sides ≤ maxDieSides
  fits : selection.Fits count
deriving DecidableEq

/-- One drawn die: its raw face and whether selection kept it. -/
structure DieResult where
  value : ℕ
  kept : Bool
deriving DecidableEq

/-- The evaluated outcome of one expression. -/
structure DiceRoll where
  expression : DiceExpr
  dice : List DieResult
  total : ℤ
deriving DecidableEq

/-- Validates a stream name: nonempty and within the byte limit. -/
def checkStream (stream : String) : Except RulesError Unit :=
  if (utf8Bytes stream).isEmpty then .error (.at .invalidStream "/stream")
  else if (utf8Bytes stream).length > maxRngStreamBytes then
    .error (.at .limitExceeded "/stream")
  else .ok ()

namespace DiceExpr

/-- Builds an expression from parts, checking count, sides and selection in that order. -/
def new (count sides : ℕ) (selection : DiceSelection) (offset : ℤ) : Except RulesError DiceExpr :=
  if hcount : count = 0 ∨ count > maxDiceCount then .error (.at .invalidDice "/dice/count")
  else if hsides : sides = 0 ∨ sides > maxDieSides then .error (.at .invalidDice "/dice/sides")
  else if hfits : selection.Fits count then
    .ok ⟨count, sides, selection, offset, by omega, by omega, by omega, by omega, hfits⟩
  else .error (.at .invalidDice "/dice/selection")

/-- Draws `count` dice in order. -/
def draw (sides : ℕ) : ℕ → Pcg32 → Option (List DieResult × Pcg32)
  | 0, stream => some ([], stream)
  | count + 1, stream => do
    let drawn ← stream.genRangeU32 (UInt32.ofNat sides)
    let rest ← draw sides count drawn.2
    pure (⟨drawn.1.toNat + 1, true⟩ :: rest.1, rest.2)

def ranksBefore (highest : Bool) (dice : List DieResult) (left right : ℕ) : Bool :=
  let first := (dice[left]?.map DieResult.value).getD 0
  let second := (dice[right]?.map DieResult.value).getD 0
  if highest then decide (second < first ∨ (second = first ∧ left ≤ right))
  else decide (first < second ∨ (first = second ∧ left ≤ right))

/-- The indices of the dice ranked by value, earlier indices first among equals. -/
def ranked (highest : Bool) (dice : List DieResult) : List ℕ :=
  (List.range dice.length).insertionSort fun left right ↦ ranksBefore highest dice left right

def dropAt (dice : List DieResult) (indices : List ℕ) : List DieResult :=
  dice.mapIdx fun index die ↦ if index ∈ indices then { die with kept := false } else die

/-- Marks kept and dropped dice in place, preserving draw order. -/
def applySelection (dice : List DieResult) : DiceSelection → List DieResult
  | .all => dice
  | .keepHighest kept => dropAt dice ((ranked true dice).drop kept)
  | .keepLowest kept => dropAt dice ((ranked false dice).drop kept)
  | .dropHighest dropped => dropAt dice ((ranked true dice).take dropped)
  | .dropLowest dropped => dropAt dice ((ranked false dice).take dropped)

def totalOf (offset : ℤ) (dice : List DieResult) : ℤ :=
  clampI32 (dice.foldl (fun sum die ↦ if die.kept then sum + die.value else sum) offset)

/-- Evaluates the expression against one named stream: the roll and the stream's new state, or
`none` for a draw without end. -/
def evaluate (expr : DiceExpr) (rng : DeterministicRng) (stream : String) :
    Except RulesError (Option (DiceRoll × DeterministicRng)) :=
  match checkStream stream with
  | .error error => .error error
  | .ok () => .ok <| (draw expr.sides expr.count (rng.stream stream)).map fun drawn ↦
      let dice := applySelection drawn.1 expr.selection
      (⟨expr, dice, totalOf expr.offset dice⟩, rng.setStream stream drawn.2)

/-! ### Notation -/

def fault (offset : ℕ) : RulesError := .at .invalidDice ("/dice/input/" ++ toString offset)

/-- Accumulates a run of digits in a checked `u64`: the value and the number of digits read. -/
def takeDigits (tokenStart : ℕ) : List UInt8 → ℕ → ℕ → Except RulesError (ℕ × ℕ)
  | [], value, taken => .ok (value, taken)
  | byte :: rest, value, taken =>
    if Lib.Decimal.isDigit byte then
      let next := value * 10 + (byte.toNat - 48)
      if next ≤ u64Max then takeDigits tokenStart rest next (taken + 1) else .error (fault tokenStart)
    else .ok (value, taken)

/-- Reads one run of digits at an index: the value, or `none` when no digit leads, and the first
index past the run. -/
def takeNumber (bytes : List UInt8) (index tokenStart : ℕ) : Except RulesError (Option ℕ × ℕ) :=
  match takeDigits tokenStart (bytes.drop index) 0 0 with
  | .error error => .error error
  | .ok (_, 0) => .ok (none, index)
  | .ok (value, taken) => .ok (some value, index + taken)

/-- The optional keep or drop selection at an index. -/
def parseSelection (bytes : List UInt8) (index count : ℕ) : Except RulesError (DiceSelection × ℕ) :=
  if bytes[index]? = some 107 ∨ bytes[index]? = some 100 then
    let mode := (bytes[index]?.getD 0, bytes[index + 1]?.getD 0)
    let keep : Option Bool :=
      if mode = (107, 104) ∨ mode = (107, 108) then some true
      else if mode = (100, 104) ∨ mode = (100, 108) then some false
      else none
    match keep with
    | none => .error (fault index)
    | some keep =>
      match takeNumber bytes (index + 2) (index + 2) with
      | .error error => .error error
      | .ok (none, _) => .error (fault (index + 2))
      | .ok (some operand, next) =>
        if keep then
          if operand < 1 ∨ operand > count ∨ operand > u32Max then .error (fault index)
          else .ok (if mode = (107, 104) then .keepHighest operand else .keepLowest operand, next)
        else
          if operand ≥ count ∨ operand > u32Max then .error (fault index)
          else .ok (if mode = (100, 104) then .dropHighest operand else .dropLowest operand, next)
  else .ok (.all, index)

def parseOffset (bytes : List UInt8) (index : ℕ) : Except RulesError (ℤ × ℕ) :=
  if bytes[index]? = some 43 ∨ bytes[index]? = some 45 then
    let negative := bytes[index]? = some 45
    match takeNumber bytes (index + 1) index with
    | .error error => .error error
    | .ok (none, _) => .error (fault (index + 1))
    | .ok (some magnitude, next) =>
      let limit := if negative then 2147483648 else 2147483647
      if magnitude > limit then .error (fault index)
      else .ok (if negative then -(magnitude : ℤ) else magnitude, next)
  else .ok (0, index)

def parseTail (bytes : List UInt8) (index count sides : ℕ) : Except RulesError DiceExpr :=
  match parseSelection bytes index count with
  | .error error => .error error
  | .ok (selection, afterSelection) =>
    match parseOffset bytes afterSelection with
    | .error error => .error error
    | .ok (offset, afterOffset) =>
      if afterOffset ≠ bytes.length then .error (fault afterOffset)
      else match new count sides selection offset with
        | .ok expr => .ok expr
        | .error _ => .error (fault 0)

/-- `FromStr`: parses `count "d" sides [selection] [offset]`. -/
def parse (input : String) : Except RulesError DiceExpr :=
  let bytes := utf8Bytes input
  if bytes.length > maxDiceInputBytes then .error (.at .limitExceeded "/dice/input")
  else match takeNumber bytes 0 0 with
    | .error error => .error error
    | .ok (none, _) => .error (fault 0)
    | .ok (some count, index) =>
      if count = 0 ∨ count > maxDiceCount then .error (fault 0)
      else if bytes[index]? ≠ some 100 then .error (fault index)
      else match takeNumber bytes (index + 1) (index + 1) with
        | .error error => .error error
        | .ok (none, _) => .error (fault (index + 1))
        | .ok (some sides, next) =>
          if sides = 0 ∨ sides > maxDieSides then .error (fault (index + 1))
          else parseTail bytes next count sides

end DiceExpr

end Crpg.Rules
