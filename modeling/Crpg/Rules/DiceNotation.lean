import Crpg.Lib.Decimal
import Crpg.Rules.Dice

/-!
# The dice notation

`Display` and `FromStr` of `crpg-rules/src/dice.rs`. A `DiceText` is a text of the grammar: a
count, the letter `d`, sides, an optional selection and an optional signed offset, each number a
nonempty run of digits. The parser reads each part as far as it goes, and what it accepts are the
texts within the length limit that denote an expression (`parse_eq_ok_iff`). No two texts have the
same bytes (`text_eq_of_bytes`): the letter `d` between count and sides is not taken for a
selection, since a selection only follows the digits of the sides.

Faults name a byte offset within the input (`parse_fault`); a text over the limit is refused as a
whole. `notation_exact` states the notation as a whole.
-/

set_option autoImplicit false

namespace Crpg.Rules

open Crpg.Core Crpg.Lib
open Crpg.Lib.Decimal (DigitRun AllDigits StopsDigits isDigit)
open List (append_assoc forall_mem_append forall_mem_cons length_append length_cons
  length_singleton)

/-! ### Texts of the grammar -/

/-- The selections that take an operand. -/
inductive SelectionMode
  | keepHighest
  | keepLowest
  | dropHighest
  | dropLowest
deriving DecidableEq

namespace SelectionMode

/-- The two letters of a mode: `kh`, `kl`, `dh` or `dl`. -/
def letters : SelectionMode → List UInt8
  | keepHighest => [107, 104]
  | keepLowest => [107, 108]
  | dropHighest => [100, 104]
  | dropLowest => [100, 108]

def select : SelectionMode → ℕ → DiceSelection
  | keepHighest => .keepHighest
  | keepLowest => .keepLowest
  | dropHighest => .dropHighest
  | dropLowest => .dropLowest

end SelectionMode

/-- A text of the dice grammar. A selection is a mode and its operand, an offset its sign and its
magnitude. -/
structure DiceText where
  count : DigitRun
  sides : DigitRun
  selection : Option (SelectionMode × DigitRun)
  offset : Option (Bool × DigitRun)

namespace DiceText

def selectionBytes : Option (SelectionMode × DigitRun) → List UInt8
  | none => []
  | some (mode, operand) => mode.letters ++ operand.bytes

def offsetBytes : Option (Bool × DigitRun) → List UInt8
  | none => []
  | some (negative, magnitude) => (if negative then 45 else 43) :: magnitude.bytes

def bytes (text : DiceText) : List UInt8 :=
  text.count.bytes ++ 100 :: (text.sides.bytes ++
    (selectionBytes text.selection ++ offsetBytes text.offset))

/-- The selection a text denotes. -/
def selectionOf : Option (SelectionMode × DigitRun) → DiceSelection
  | none => .all
  | some (mode, operand) => mode.select operand.number

/-- The offset a text denotes. -/
def offsetOf : Option (Bool × DigitRun) → ℤ
  | none => 0
  | some (negative, magnitude) => if negative then -(magnitude.number : ℤ) else magnitude.number

structure Denotes (text : DiceText) (expr : DiceExpr) : Prop where
  count : text.count.number = expr.count
  sides : text.sides.number = expr.sides
  selection : selectionOf text.selection = expr.selection
  offset : offsetOf text.offset = expr.offset

structure InRange (text : DiceText) : Prop where
  count_pos : 0 < text.count.number
  count_le : text.count.number ≤ maxDiceCount
  sides_pos : 0 < text.sides.number
  sides_le : text.sides.number ≤ maxDieSides
  fits : (selectionOf text.selection).Fits text.count.number
  offset : InI32 (offsetOf text.offset)

def Shortest (run : DigitRun) : Prop := run.bytes = Decimal.digits run.number

structure Canonical (text : DiceText) : Prop where
  count : Shortest text.count
  sides : Shortest text.sides
  selection : ∀ piece ∈ text.selection, Shortest piece.2
  offset : ∀ piece ∈ text.offset, Shortest piece.2 ∧ piece.2.number ≠ 0

end DiceText

namespace DiceExpr

/-! ### Writing -/

/-- The selection as `Display` writes it. -/
def displaySelection : DiceSelection → List UInt8
  | .all => []
  | .keepHighest kept => [107, 104] ++ Decimal.digits kept
  | .keepLowest kept => [107, 108] ++ Decimal.digits kept
  | .dropHighest dropped => [100, 104] ++ Decimal.digits dropped
  | .dropLowest dropped => [100, 108] ++ Decimal.digits dropped

/-- The offset as `Display` writes it. -/
def displayOffset (offset : ℤ) : List UInt8 :=
  if 0 < offset then 43 :: Decimal.digits offset.toNat
  else if offset < 0 then 45 :: Decimal.digits (-offset).toNat
  else []

/-- `Display`: the bytes written. -/
def display (expr : DiceExpr) : List UInt8 :=
  Decimal.digits expr.count ++ 100 :: (Decimal.digits expr.sides ++
    (displaySelection expr.selection ++ displayOffset expr.offset))

/-- `to_string`. -/
def toText (expr : DiceExpr) : String := Decimal.asciiText (display expr)

open DiceText (selectionBytes offsetBytes offsetOf selectionOf)

/-! ### Reading a number -/

theorem takeDigits_eq (start : ℕ) (bytes : List UInt8) {value taken : ℕ} (hvalue : value ≤ u64Max) :
    takeDigits start bytes value taken =
      if Decimal.valueFrom value (bytes.takeWhile isDigit) ≤ u64Max then
        .ok (Decimal.valueFrom value (bytes.takeWhile isDigit),
          taken + (bytes.takeWhile isDigit).length) else .error (fault start) := by
  induction bytes generalizing value taken with
  | nil => exact (if_pos hvalue).symm
  | cons byte rest ih =>
    unfold takeDigits
    by_cases hdigit : isDigit byte = true
    · have hrun : (byte :: rest).takeWhile isDigit =
          byte :: rest.takeWhile isDigit := List.takeWhile_cons_of_pos hdigit
      have hstep (run : List UInt8) : Decimal.valueFrom value (byte :: run) =
          Decimal.valueFrom (value * 10 + (byte.toNat - 48)) run := rfl
      rw [if_pos hdigit, hrun, hstep, length_cons]
      dsimp only
      by_cases hnext : value * 10 + (byte.toNat - 48) ≤ u64Max
      · rw [if_pos hnext, ih hnext, Nat.add_assoc, Nat.add_comm 1]
      · have hgrows : value * 10 + (byte.toNat - 48) ≤ Decimal.valueFrom
            (value * 10 + (byte.toNat - 48)) (rest.takeWhile isDigit) := by
          rw [Decimal.valueFrom_eq]
          exact (Nat.le_mul_of_pos_right _ (Nat.pow_pos (by decide))).trans (Nat.le_add_right _ _)
        rw [if_neg hnext, if_neg fun hlow ↦ hnext (hgrows.trans hlow)]
    · have hrun : (byte :: rest).takeWhile isDigit = [] :=
        List.takeWhile_cons_of_neg hdigit
      rw [if_neg hdigit, hrun]
      exact (if_pos hvalue).symm

theorem takeNumber_eq (before rest : List UInt8) (start : ℕ) :
    takeNumber (before ++ rest) before.length start =
      if u64Max < Decimal.value (rest.takeWhile isDigit) then .error (fault start)
      else if rest.takeWhile isDigit = [] then .ok (none, before.length)
      else .ok (some (Decimal.value (rest.takeWhile isDigit)),
        before.length + (rest.takeWhile isDigit).length) := by
  have hvalue : Decimal.valueFrom 0 (rest.takeWhile isDigit) =
      Decimal.value (rest.takeWhile isDigit) := rfl
  unfold takeNumber
  rw [List.drop_left, takeDigits_eq start rest (Nat.zero_le _), Nat.zero_add, hvalue]
  by_cases hlarge : u64Max < Decimal.value (rest.takeWhile isDigit)
  · rw [if_neg (not_le.mpr hlarge), if_pos hlarge]
  · rw [if_pos (not_lt.mp hlarge), if_neg hlarge]
    cases hrun : rest.takeWhile isDigit with
    | nil => rfl
    | cons byte later => rfl

variable {rest : List UInt8} {next sides : ℕ}

/-- A number is read from the rest of a text exactly when it starts with a run of digits that fits a
`u64`, which is read to its end. -/
theorem takeNumber_eq_some_iff {before : List UInt8} {start number : ℕ} :
    takeNumber (before ++ rest) before.length start = .ok (some number, next) ↔
      ∃ (run : DigitRun) (after : List UInt8), rest = run.bytes ++ after ∧ StopsDigits after ∧
        run.number ≤ u64Max ∧ number = run.number ∧ next = before.length + run.bytes.length := by
  rw [takeNumber_eq]
  constructor
  · intro hread
    by_cases hlarge : u64Max < Decimal.value (rest.takeWhile isDigit)
    · rw [if_pos hlarge] at hread
      exact nomatch hread
    · rw [if_neg hlarge] at hread
      by_cases hempty : rest.takeWhile isDigit = []
      · rw [if_pos hempty] at hread
        exact nomatch hread
      · rw [if_neg hempty, Except.ok.injEq, Prod.mk.injEq, Option.some.injEq] at hread
        exact ⟨⟨_, hempty, Decimal.allDigits_takeWhile rest⟩, rest.dropWhile isDigit,
          (List.takeWhile_append_dropWhile).symm, Decimal.stopsDigits_dropWhile rest,
          not_lt.mp hlarge, hread.1.symm, hread.2.symm⟩
  · intro ⟨run, after, hrest, hafter, hfits, hnumber, hnext⟩
    have hrun : rest.takeWhile isDigit = run.bytes := by
      rw [hrest]
      exact Decimal.takeWhile_run run.allDigits hafter
    have hlow : Decimal.value run.bytes ≤ u64Max := hfits
    rw [hrun, if_neg (not_lt.mpr hlow), if_neg run.ne, hnumber, hnext]
    rfl

/-- Reading a number at the front of a text. -/
theorem takeNumber_zero_eq_some_iff {bytes : List UInt8} {start number : ℕ} :
    takeNumber bytes 0 start = .ok (some number, next) ↔
      ∃ (run : DigitRun) (after : List UInt8), bytes = run.bytes ++ after ∧ StopsDigits after ∧
        run.number ≤ u64Max ∧ number = run.number ∧ next = run.bytes.length := by
  have hfront := @takeNumber_eq_some_iff bytes next [] start number
  rw [List.length_nil] at hfront
  simp only [Nat.zero_add] at hfront
  exact hfront

/-- A run that fits a `u64` is read to its end. -/
theorem takeNumber_run (before : List UInt8) {run : DigitRun} {after : List UInt8} (start : ℕ)
    (hafter : StopsDigits after) (hlow : run.number ≤ u64Max) :
    takeNumber (before ++ (run.bytes ++ after)) before.length start =
      .ok (some run.number, before.length + run.bytes.length) :=
  takeNumber_eq_some_iff.mpr ⟨run, after, rfl, hafter, hlow, rfl, rfl⟩

/-! ### Reading a selection -/

/-- What a text may go on with after a selection: after none, no letter of one; after an operand, no
digit. -/
def SelectionStops : Option (SelectionMode × DigitRun) → List UInt8 → Prop
  | none, after => after.head? ≠ some 107 ∧ after.head? ≠ some 100
  | some _, after => StopsDigits after

/-- Without a letter that starts a selection, all dice are kept. -/
theorem parseSelection_eq_all (before rest : List UInt8) (count : ℕ)
    (hrest : SelectionStops none rest) :
    parseSelection (before ++ rest) before.length count = .ok (.all, before.length) := by
  have hhead : (before ++ rest)[before.length]? = rest.head? := by
    rw [List.getElem?_append_right le_rfl, Nat.sub_self, List.head?_eq_getElem?]
  unfold parseSelection
  rw [hhead, if_neg]
  exact not_or.mpr hrest

theorem parseSelection_eq_mode (before rest : List UInt8) (count : ℕ) (mode : SelectionMode)
    (hcount : count ≤ maxDiceCount) :
    parseSelection (before ++ (mode.letters ++ rest)) before.length count =
      match takeNumber ((before ++ mode.letters) ++ rest) (before ++ mode.letters).length
        (before.length + 2) with
      | .error error => .error error
      | .ok (none, _) => .error (fault (before.length + 2))
      | .ok (some operand, next) =>
        if (mode.select operand).Fits count then .ok (mode.select operand, next)
        else .error (fault before.length) := by
  have hlength : (before ++ mode.letters).length = before.length + 2 := by
    cases mode <;> exact length_append
  have hfirst : (before ++ (mode.letters ++ rest))[before.length]? = mode.letters.head? := by
    rw [List.getElem?_append_right le_rfl, Nat.sub_self]
    cases mode <;> rfl
  have hsecond : (before ++ (mode.letters ++ rest))[before.length + 1]? = mode.letters[1]? := by
    rw [List.getElem?_append_right (Nat.le_add_right _ _), Nat.add_sub_cancel_left]
    cases mode <;> rfl
  have hsmall : maxDiceCount ≤ u32Max := by decide
  rw [hlength, append_assoc]
  unfold parseSelection
  rw [hfirst, hsecond]
  generalize takeNumber (before ++ (mode.letters ++ rest)) (before.length + 2)
    (before.length + 2) = read
  cases read with
  | error error => cases mode <;> rfl
  | ok read =>
    obtain ⟨operand, next⟩ := read
    cases operand with
    | none => cases mode <;> rfl
    | some operand =>
      have hkeep (refused read : Except RulesError (DiceSelection × ℕ)) :
          (if operand < 1 ∨ operand > count ∨ operand > u32Max then refused else read) =
            if 1 ≤ operand ∧ operand ≤ count then read else refused := by
        split_ifs <;> first | rfl | omega
      have hdrop (refused read : Except RulesError (DiceSelection × ℕ)) :
          (if operand ≥ count ∨ operand > u32Max then refused else read) =
            if operand < count then read else refused := by
        split_ifs <;> first | rfl | omega
      cases mode with
      | keepHighest => exact hkeep _ _
      | keepLowest => exact hkeep _ _
      | dropHighest => exact hdrop _ _
      | dropLowest => exact hdrop _ _

theorem parseSelection_eq_refused (before rest : List UInt8) (count : ℕ)
    (hstart : ¬ SelectionStops none rest) (hmodes : ∀ (mode : SelectionMode) (after : List UInt8),
      rest ≠ mode.letters ++ after) :
    parseSelection (before ++ rest) before.length count = .error (fault before.length) := by
  have hhead : (before ++ rest)[before.length]? = rest.head? := by
    rw [List.getElem?_append_right le_rfl, Nat.sub_self, List.head?_eq_getElem?]
  have hsecond : (before ++ rest)[before.length + 1]? = rest[1]? := by
    rw [List.getElem?_append_right (Nat.le_add_right _ _), Nat.add_sub_cancel_left]
  have hother (mode : SelectionMode) (first second : UInt8)
      (hletters : mode.letters = [first, second]) :
      (rest.head?.getD 0, rest[1]?.getD 0) ≠ (first, second) := by
    intro hpair
    rw [Prod.mk.injEq] at hpair
    match rest, hpair, hmodes with
    | [], hpair, _ =>
      obtain ⟨hfirst, -⟩ := hpair
      cases mode <;> injection hletters with hone <;> rw [← hone] at hfirst <;> exact nomatch hfirst
    | [byte], hpair, _ =>
      obtain ⟨-, hnext⟩ := hpair
      cases mode <;> injection hletters with _ htwo <;> injection htwo with htwo <;>
        rw [← htwo] at hnext <;> exact nomatch hnext
    | one :: two :: after, hpair, hmodes =>
      refine hmodes mode after ?_
      rw [hletters, ← hpair.1, ← hpair.2]
      rfl
  unfold parseSelection
  rw [hhead, hsecond, if_pos (by
    unfold SelectionStops at hstart
    exact not_and_or.mp hstart |>.imp not_not.mp not_not.mp)]
  dsimp only
  rw [if_neg (not_or.mpr ⟨hother .keepHighest _ _ rfl, hother .keepLowest _ _ rfl⟩),
    if_neg (not_or.mpr ⟨hother .dropHighest _ _ rfl, hother .dropLowest _ _ rfl⟩)]

theorem operand_le_of_fits {mode : SelectionMode} {operand count : ℕ}
    (hfits : (mode.select operand).Fits count) : operand ≤ count := by
  cases mode with
  | keepHighest => exact hfits.2
  | keepLowest => exact hfits.2
  | dropHighest => exact Nat.le_of_lt hfits
  | dropLowest => exact Nat.le_of_lt hfits

theorem parseSelection_eq_ok_iff {before : List UInt8} {count : ℕ} {selection : DiceSelection}
    (hcount : count ≤ maxDiceCount) :
    parseSelection (before ++ rest) before.length count = .ok (selection, next) ↔
      ∃ (piece : Option (SelectionMode × DigitRun)) (after : List UInt8),
        rest = selectionBytes piece ++ after ∧ SelectionStops piece after ∧
        selectionOf piece = selection ∧ selection.Fits count ∧
        next = before.length + (selectionBytes piece).length := by
  constructor
  · intro hread
    by_cases hstart : SelectionStops none rest
    · rw [parseSelection_eq_all before rest count hstart, Except.ok.injEq, Prod.mk.injEq] at hread
      exact ⟨none, rest, rfl, hstart, hread.1, hread.1 ▸ trivial, hread.2.symm⟩
    · by_cases hmodes : ∀ (mode : SelectionMode) (after : List UInt8), rest ≠ mode.letters ++ after
      · rw [parseSelection_eq_refused before rest count hstart hmodes] at hread
        exact nomatch hread
      · push Not at hmodes
        obtain ⟨mode, tail, rfl⟩ := hmodes
        rw [parseSelection_eq_mode before tail count mode hcount] at hread
        split at hread
        · exact nomatch hread
        · exact nomatch hread
        · next operand past htake =>
          obtain ⟨run, after, rfl, hafter, hlow, rfl, rfl⟩ := takeNumber_eq_some_iff.mp htake
          split_ifs at hread with hfits
          rw [Except.ok.injEq, Prod.mk.injEq] at hread
          refine ⟨some (mode, run), after, (append_assoc _ _ _).symm, hafter, hread.1,
            hread.1 ▸ hfits, ?_⟩
          rw [← hread.2, selectionBytes, length_append, length_append, Nat.add_assoc]
  · intro ⟨piece, after, hrest, hafter, hselection, hfits, hnext⟩
    cases piece with
    | none =>
      rw [hrest, ← hselection, hnext]
      exact parseSelection_eq_all before after count hafter
    | some piece =>
      obtain ⟨mode, run⟩ := piece
      have hselect : mode.select run.number = selection := hselection
      have hlow : run.number ≤ u64Max := by
        have hsmall : maxDiceCount ≤ u64Max := by decide
        rw [← hselect] at hfits
        exact (operand_le_of_fits hfits).trans (hcount.trans hsmall)
      rw [hrest, selectionBytes, append_assoc,
        parseSelection_eq_mode before _ count mode hcount, takeNumber_run _ _ hafter hlow]
      dsimp only
      rw [hselect, if_pos hfits, hnext, selectionBytes, length_append, length_append,
        Nat.add_assoc]

/-! ### Reading an offset -/

/-- What a text may go on with after an offset: after none, no sign; after a magnitude, no digit. -/
def OffsetStops : Option (Bool × DigitRun) → List UInt8 → Prop
  | none, after => after.head? ≠ some 43 ∧ after.head? ≠ some 45
  | some _, after => StopsDigits after

def signByte (negative : Bool) : UInt8 := if negative then 45 else 43

theorem parseOffset_eq_zero (before rest : List UInt8) (hrest : OffsetStops none rest) :
    parseOffset (before ++ rest) before.length = .ok (0, before.length) := by
  have hhead : (before ++ rest)[before.length]? = rest.head? := by
    rw [List.getElem?_append_right le_rfl, Nat.sub_self, List.head?_eq_getElem?]
  unfold parseOffset
  rw [hhead, if_neg]
  exact not_or.mpr hrest

theorem parseOffset_eq_sign (before rest : List UInt8) (negative : Bool) :
    parseOffset (before ++ signByte negative :: rest) before.length =
      match takeNumber ((before ++ [signByte negative]) ++ rest)
        (before ++ [signByte negative]).length before.length with
      | .error error => .error error
      | .ok (none, _) => .error (fault (before.length + 1))
      | .ok (some magnitude, next) =>
        if magnitude > (if negative then 2147483648 else 2147483647) then
          .error (fault before.length)
        else .ok (if negative then -(magnitude : ℤ) else magnitude, next) := by
  have hlength : (before ++ [signByte negative]).length = before.length + 1 := length_append
  have hsign : (before ++ signByte negative :: rest)[before.length]? =
      some (signByte negative) := by
    rw [List.getElem?_append_right le_rfl, Nat.sub_self]
    rfl
  rw [hlength, append_assoc, List.singleton_append]
  unfold parseOffset
  rw [hsign]
  generalize takeNumber (before ++ signByte negative :: rest) (before.length + 1)
    before.length = read
  cases negative <;> cases read <;> rfl

/-- The magnitudes that fit are those of the offsets in range. -/
theorem magnitude_le_iff (negative : Bool) (magnitude : ℕ) :
    ¬ magnitude > (if negative then 2147483648 else 2147483647) ↔
      InI32 (if negative then -(magnitude : ℤ) else magnitude) := by
  unfold InI32 i32Min i32Max
  cases negative <;> simp

theorem exists_sign_of_not_stops (hstart : ¬ OffsetStops none rest) :
    ∃ negative tail, rest = signByte negative :: tail := by
  cases rest with
  | nil => exact absurd ⟨nofun, nofun⟩ hstart
  | cons byte tail =>
    rcases not_and_or.mp hstart with hplus | hminus
    · exact ⟨false, tail, congrArg (· :: tail) (Option.some.inj (not_not.mp hplus))⟩
    · exact ⟨true, tail, congrArg (· :: tail) (Option.some.inj (not_not.mp hminus))⟩

/-- An offset is read exactly where the text goes on with one in range. -/
theorem parseOffset_eq_ok_iff {before : List UInt8} {offset : ℤ} :
    parseOffset (before ++ rest) before.length = .ok (offset, next) ↔
      ∃ (piece : Option (Bool × DigitRun)) (after : List UInt8),
        rest = offsetBytes piece ++ after ∧ OffsetStops piece after ∧
        offsetOf piece = offset ∧ InI32 offset ∧
        next = before.length + (offsetBytes piece).length := by
  constructor
  · intro hread
    by_cases hstart : OffsetStops none rest
    · rw [parseOffset_eq_zero before rest hstart, Except.ok.injEq, Prod.mk.injEq] at hread
      exact ⟨none, rest, rfl, hstart, hread.1, hread.1 ▸ by decide, hread.2.symm⟩
    · obtain ⟨negative, tail, rfl⟩ := exists_sign_of_not_stops hstart
      rw [parseOffset_eq_sign before tail negative] at hread
      split at hread
      · exact nomatch hread
      · exact nomatch hread
      · next magnitude past htake =>
        obtain ⟨run, after, rfl, hafter, hlow, rfl, rfl⟩ := takeNumber_eq_some_iff.mp htake
        by_cases hlarge : run.number > (if negative then 2147483648 else 2147483647)
        · rw [if_pos hlarge] at hread
          exact nomatch hread
        · rw [if_neg hlarge, Except.ok.injEq, Prod.mk.injEq] at hread
          refine ⟨some (negative, run), after, rfl, hafter, hread.1,
            hread.1 ▸ (magnitude_le_iff negative run.number).mp hlarge, ?_⟩
          rw [← hread.2, offsetBytes, length_append, length_singleton, length_cons]
          omega
  · intro ⟨piece, after, hrest, hafter, hoffset, hrange, hnext⟩
    cases piece with
    | none =>
      rw [hrest, ← hoffset, hnext]
      exact parseOffset_eq_zero before after hafter
    | some piece =>
      obtain ⟨negative, run⟩ := piece
      have hsigned : (if negative then -(run.number : ℤ) else run.number) = offset := hoffset
      have hsmall := (magnitude_le_iff negative run.number).mpr (hsigned ▸ hrange)
      have hlow : run.number ≤ u64Max := by
        have hbound : (if negative = true then 2147483648 else 2147483647) ≤ u64Max := by
          cases negative <;> decide
        omega
      have hbytes : offsetBytes (some (negative, run)) ++ after =
          signByte negative :: (run.bytes ++ after) := rfl
      rw [hrest, hbytes, parseOffset_eq_sign before _ negative, takeNumber_run _ _ hafter hlow]
      dsimp only
      rw [if_neg hsmall, hsigned, hnext, offsetBytes, length_append, length_singleton,
        length_cons, Nat.add_assoc, Nat.add_comm 1]

/-! ### Reading an expression -/

variable {expr : DiceExpr}

/-- The constructor returns the expression with the parts it was given. -/
theorem new_eq_ok_iff {count : ℕ} {selection : DiceSelection} {offset : ℤ} :
    new count sides selection offset = .ok expr ↔ expr.count = count ∧ expr.sides = sides ∧
      expr.selection = selection ∧ expr.offset = offset := by
  unfold new
  constructor
  · intro hnew
    split_ifs at hnew with hcount hsides hfits
    injection hnew with hnew
    rw [← hnew]
    exact ⟨rfl, rfl, rfl, rfl⟩
  · rintro ⟨rfl, rfl, rfl, rfl⟩
    have hcount := expr.count_pos
    have hcountLe := expr.count_le
    have hsides := expr.sides_pos
    have hsidesLe := expr.sides_le
    rw [dif_neg (by omega), dif_neg (by omega), dif_pos expr.fits]

/-- An offset starts with a sign, so nothing before it reads on. -/
theorem stops_offsetBytes (piece : Option (SelectionMode × DigitRun))
    (offset : Option (Bool × DigitRun)) : SelectionStops piece (offsetBytes offset) := by
  cases offset with
  | none =>
    cases piece with
    | none => exact ⟨nofun, nofun⟩
    | some piece => exact nofun
  | some offset =>
    obtain ⟨negative, run⟩ := offset
    cases piece <;> cases negative <;>
      simp [SelectionStops, StopsDigits, offsetBytes] <;> decide

theorem stops_tail (piece : Option (SelectionMode × DigitRun)) (offset : Option (Bool × DigitRun)) :
    StopsDigits (selectionBytes piece ++ offsetBytes offset) := by
  cases piece with
  | none =>
    cases offset with
    | none => exact nofun
    | some offset =>
      obtain ⟨negative, run⟩ := offset
      cases negative <;>
        simp [StopsDigits, selectionBytes, offsetBytes] <;> decide
  | some piece =>
    obtain ⟨mode, run⟩ := piece
    cases mode <;> simp [StopsDigits, selectionBytes, SelectionMode.letters] <;> decide

theorem parseTail_eq_ok_iff {before : List UInt8} {count : ℕ} (hcount : count ≤ maxDiceCount) :
    parseTail (before ++ rest) before.length count sides = .ok expr ↔
      ∃ (selection : Option (SelectionMode × DigitRun)) (offset : Option (Bool × DigitRun)),
        rest = selectionBytes selection ++ offsetBytes offset ∧
        expr.count = count ∧ expr.sides = sides ∧ selectionOf selection = expr.selection ∧
        offsetOf offset = expr.offset ∧ InI32 expr.offset := by
  unfold parseTail
  constructor
  · intro hread
    split at hread
    · exact nomatch hread
    · next kept afterSelection hselection =>
      obtain ⟨selection, tail, rfl, hstop, hkept, hfits, rfl⟩ :=
        (parseSelection_eq_ok_iff hcount).mp hselection
      rw [← append_assoc, ← length_append] at hread
      split at hread
      · exact nomatch hread
      · next added afterOffset hoffset =>
        obtain ⟨offset, after, rfl, -, hadded, hrange, rfl⟩ := parseOffset_eq_ok_iff.mp hoffset
        have hlength : (before ++ selectionBytes selection ++
            (offsetBytes offset ++ after)).length =
            (before ++ selectionBytes selection).length +
              (offsetBytes offset).length + after.length := by
          simp only [length_append, Nat.add_assoc]
        by_cases hend : after = []
        · rw [if_neg (by rw [hlength, hend, List.length_nil]; omega)] at hread
          split at hread
          · next built hnew =>
            obtain ⟨hbuiltCount, hbuiltSides, hbuiltSelection, hbuiltOffset⟩ :=
              new_eq_ok_iff.mp hnew
            rw [Except.ok.injEq] at hread
            subst hread
            refine ⟨selection, offset, by rw [hend, List.append_nil], hbuiltCount, hbuiltSides,
              hkept.trans hbuiltSelection.symm, hadded.trans hbuiltOffset.symm,
              hbuiltOffset ▸ hrange⟩
          · exact nomatch hread
        · rw [if_pos (by
            have hpos := List.length_pos_iff.mpr hend
            omega)] at hread
          exact nomatch hread
  · intro ⟨selection, offset, hrest, hexprCount, hsides, hselection, hoffset, hrange⟩
    have hreadSelection : parseSelection (before ++ rest) before.length count =
        .ok (expr.selection, before.length + (selectionBytes selection).length) :=
      (parseSelection_eq_ok_iff hcount).mpr ⟨selection, _, hrest,
        stops_offsetBytes selection offset, hselection, hexprCount ▸ expr.fits, rfl⟩
    have hreadOffset : parseOffset ((before ++ selectionBytes selection) ++
        offsetBytes offset) (before ++ selectionBytes selection).length =
        .ok (expr.offset, (before ++ selectionBytes selection).length +
          (offsetBytes offset).length) := by
      refine parseOffset_eq_ok_iff.mpr
        ⟨offset, [], (List.append_nil _).symm, ?_, hoffset, hrange, rfl⟩
      cases offset with
      | none => exact ⟨nofun, nofun⟩
      | some offset => exact nofun
    have hnew : new count sides expr.selection expr.offset = .ok expr :=
      new_eq_ok_iff.mpr ⟨hexprCount, hsides, rfl, rfl⟩
    rw [hreadSelection, hrest, ← append_assoc, ← length_append]
    dsimp only
    rw [hreadOffset]
    dsimp only
    rw [if_neg (not_not.mpr length_append.symm), hnew]

theorem stops_separator (rest : List UInt8) : StopsDigits (100 :: rest) := by
  intro byte hbyte
  rw [← Option.some.inj hbyte]
  rfl

theorem exists_after_separator (run : List UInt8)
    (hletter : (run ++ rest)[run.length]? = some 100) :
    ∃ tail, rest = 100 :: tail ∧ run ++ rest = (run ++ [100]) ++ tail ∧
      run.length + 1 = (run ++ [100]).length := by
  rw [List.getElem?_append_right le_rfl, Nat.sub_self] at hletter
  cases rest with
  | nil => exact nomatch hletter
  | cons byte tail =>
    have hbyte : byte = 100 := Option.some.inj hletter
    refine ⟨tail, by rw [hbyte], ?_, ?_⟩
    · rw [hbyte, append_assoc, List.singleton_append]
    · rw [length_append, length_singleton]

/-- What is accepted are the texts within the limit that denote an expression whose offset fits an
`i32`, and the expression is the denoted one. -/
theorem parse_eq_ok_iff {input : String} :
    parse input = .ok expr ↔ (utf8Bytes input).length ≤ maxDiceInputBytes ∧
      ∃ text : DiceText, text.bytes = utf8Bytes input ∧ text.Denotes expr ∧ InI32 expr.offset := by
  unfold parse
  generalize utf8Bytes input = bytes
  dsimp only
  by_cases hlong : bytes.length > maxDiceInputBytes
  · rw [if_pos hlong]
    exact ⟨fun hread ↦ (nomatch hread), fun hread ↦ absurd hread.1 (not_le.mpr hlong)⟩
  rw [if_neg hlong]
  constructor
  · intro hread
    refine ⟨not_lt.mp hlong, ?_⟩
    split at hread
    · exact nomatch hread
    · exact nomatch hread
    · next count index hcount =>
      obtain ⟨countRun, rest, hbytes, -, -, rfl, rfl⟩ := takeNumber_zero_eq_some_iff.mp hcount
      split_ifs at hread with hcountRange hletter
      obtain ⟨tail, rfl, hbefore, hindex⟩ :=
        exists_after_separator countRun.bytes (hbytes ▸ not_not.mp hletter)
      rw [hindex, hbytes, hbefore] at hread
      split at hread
      · exact nomatch hread
      · exact nomatch hread
      · next sides next hsides =>
        obtain ⟨sidesRun, after, rfl, -, -, rfl, rfl⟩ := takeNumber_eq_some_iff.mp hsides
        split_ifs at hread with hsidesRange
        rw [← append_assoc, ← length_append, parseTail_eq_ok_iff (by omega)] at hread
        obtain ⟨selection, offset, rfl, hexprCount, hexprSides, hselection, hoffset, hrange⟩ :=
          hread
        refine ⟨⟨countRun, sidesRun, selection, offset⟩, ?_,
          ⟨hexprCount.symm, hexprSides.symm, hselection, hoffset⟩, hrange⟩
        rw [hbytes]
        rfl
  · rintro ⟨-, text, hbytes, hdenotes, hrange⟩
    have hcountPos := expr.count_pos
    have hcountLe := expr.count_le
    have hsidesPos := expr.sides_pos
    have hsidesLe := expr.sides_le
    have hcountMax : maxDiceCount ≤ u64Max := by decide
    have hsidesMax : maxDieSides ≤ u64Max := by decide
    have hcount : takeNumber bytes 0 0 = .ok (some expr.count, text.count.bytes.length) :=
      takeNumber_zero_eq_some_iff.mpr ⟨text.count, _, hbytes.symm, stops_separator _,
        by rw [hdenotes.count]; omega, hdenotes.count.symm, rfl⟩
    have hletter : bytes[text.count.bytes.length]? = some 100 := by
      rw [← hbytes, DiceText.bytes, List.getElem?_append_right le_rfl, Nat.sub_self]
      rfl
    have hbefore : bytes = (text.count.bytes ++ [100]) ++ (text.sides.bytes ++
        (selectionBytes text.selection ++ offsetBytes text.offset)) := by
      rw [← hbytes, append_assoc, List.singleton_append]
      rfl
    have hindex : text.count.bytes.length + 1 = (text.count.bytes ++ [100]).length := by
      rw [length_append, length_singleton]
    rw [hcount]
    dsimp only
    rw [if_neg (by omega), if_neg (not_not.mpr hletter), hindex, hbefore,
      takeNumber_run _ _ (stops_tail text.selection text.offset)
        (by rw [hdenotes.sides]; omega), hdenotes.sides]
    dsimp only
    rw [if_neg (by omega), ← append_assoc, ← length_append, parseTail_eq_ok_iff hcountLe]
    exact ⟨text.selection, text.offset, rfl, rfl, rfl, hdenotes.selection, hdenotes.offset, hrange⟩

/-! ### The grammar is unambiguous -/

theorem run_eq_of_append {first second : DigitRun} {afterFirst afterSecond : List UInt8}
    (hbytes : first.bytes ++ afterFirst = second.bytes ++ afterSecond)
    (hfirst : StopsDigits afterFirst) (hsecond : StopsDigits afterSecond) :
    first = second ∧ afterFirst = afterSecond := by
  have hrun : first.bytes = second.bytes := by
    rw [← Decimal.takeWhile_run first.allDigits hfirst, hbytes,
      Decimal.takeWhile_run second.allDigits hsecond]
  refine ⟨?_, List.append_cancel_left (hrun ▸ hbytes)⟩
  cases first
  cases second
  congr

theorem offset_eq_of_bytes {first second : Option (Bool × DigitRun)}
    (hbytes : offsetBytes first = offsetBytes second) : first = second := by
  cases first with
  | none =>
    cases second with
    | none => rfl
    | some second => exact nomatch hbytes
  | some first =>
    cases second with
    | none => exact nomatch hbytes
    | some second =>
      obtain ⟨negative, run⟩ := first
      obtain ⟨other, otherRun⟩ := second
      obtain ⟨hsign, hrun⟩ := List.cons.inj hbytes
      have hends : run.bytes ++ [] = otherRun.bytes ++ [] := congrArg (· ++ []) hrun
      have hruns := (run_eq_of_append hends nofun nofun).1
      cases negative <;> cases other <;> first | exact absurd hsign (by decide) | rw [hruns]

theorem tail_eq_of_bytes {first second : Option (SelectionMode × DigitRun)}
    {offset other : Option (Bool × DigitRun)} (hbytes : selectionBytes first ++ offsetBytes offset =
      selectionBytes second ++ offsetBytes other) : first = second ∧ offset = other := by
  -- An offset does not start with a letter, so neither side has a selection alone.
  have hmixed (piece : SelectionMode × DigitRun) (rest : List UInt8) :
      offsetBytes offset ≠ selectionBytes (some piece) ++ rest ∧
        offsetBytes other ≠ selectionBytes (some piece) ++ rest := by
    have hletter : ¬ SelectionStops none (selectionBytes (some piece) ++ rest) := by
      unfold SelectionStops
      cases hmode : piece.1 <;> simp [selectionBytes, hmode, SelectionMode.letters]
    exact ⟨fun hsame ↦ hletter (hsame ▸ stops_offsetBytes none offset),
      fun hsame ↦ hletter (hsame ▸ stops_offsetBytes none other)⟩
  cases first with
  | none =>
    cases second with
    | none => exact ⟨rfl, offset_eq_of_bytes hbytes⟩
    | some second => exact absurd hbytes (hmixed second _).1
  | some first =>
    cases second with
    | none => exact absurd hbytes.symm (hmixed first _).2
    | some second =>
      obtain ⟨mode, run⟩ := first
      obtain ⟨otherMode, otherRun⟩ := second
      unfold selectionBytes at hbytes
      rw [append_assoc, append_assoc] at hbytes
      obtain ⟨hletters, hrest⟩ := List.append_inj hbytes (by cases mode <;> cases otherMode <;> rfl)
      obtain ⟨hruns, hoffsets⟩ := run_eq_of_append hrest
        (stops_offsetBytes (some (mode, run)) offset) (stops_offsetBytes (some (mode, run)) other)
      refine ⟨?_, offset_eq_of_bytes hoffsets⟩
      rw [hruns]
      cases mode <;> cases otherMode <;> first | rfl | exact absurd hletters (by decide)

theorem text_eq_of_bytes {first second : DiceText} (hbytes : first.bytes = second.bytes) :
    first = second := by
  obtain ⟨hcount, hrest⟩ := run_eq_of_append hbytes (stops_separator _) (stops_separator _)
  obtain ⟨hsides, htail⟩ := run_eq_of_append (List.cons.inj hrest).2
    (stops_tail first.selection first.offset) (stops_tail second.selection second.offset)
  obtain ⟨hselection, hoffset⟩ := tail_eq_of_bytes htail
  cases first
  cases second
  congr

theorem inRange_iff {text : DiceText} :
    text.InRange ↔ ∃ expr : DiceExpr, text.Denotes expr ∧ InI32 expr.offset := by
  constructor
  · intro hrange
    exact ⟨⟨text.count.number, text.sides.number, selectionOf text.selection,
      offsetOf text.offset, hrange.count_pos, hrange.count_le, hrange.sides_pos,
      hrange.sides_le, hrange.fits⟩, ⟨rfl, rfl, rfl, rfl⟩, hrange.offset⟩
  · intro ⟨expr, hdenotes, hoffset⟩
    refine ⟨?_, ?_, ?_, ?_, ?_, ?_⟩
    · exact hdenotes.count ▸ expr.count_pos
    · exact hdenotes.count ▸ expr.count_le
    · exact hdenotes.sides ▸ expr.sides_pos
    · exact hdenotes.sides ▸ expr.sides_le
    · rw [hdenotes.count, hdenotes.selection]
      exact expr.fits
    · exact hdenotes.offset ▸ hoffset

theorem parse_accepts_iff {input : String} :
    (∃ expr, parse input = .ok expr) ↔ (utf8Bytes input).length ≤ maxDiceInputBytes ∧
      ∃ text : DiceText, text.bytes = utf8Bytes input ∧ text.InRange := by
  constructor
  · intro ⟨expr, hread⟩
    obtain ⟨hlength, text, hbytes, hdenotes, hoffset⟩ := parse_eq_ok_iff.mp hread
    exact ⟨hlength, text, hbytes, inRange_iff.mpr ⟨expr, hdenotes, hoffset⟩⟩
  · intro ⟨hlength, text, hbytes, hrange⟩
    obtain ⟨expr, hdenotes, hoffset⟩ := inRange_iff.mp hrange
    exact ⟨expr, parse_eq_ok_iff.mpr ⟨hlength, text, hbytes, hdenotes, hoffset⟩⟩

/-- However a text is read by the grammar, the parser returns what it denotes. -/
theorem denotes_of_parse {input : String} {text : DiceText} (hread : parse input = .ok expr)
    (hbytes : text.bytes = utf8Bytes input) : text.Denotes expr ∧ InI32 expr.offset := by
  obtain ⟨-, found, hfound, hdenotes, hoffset⟩ := parse_eq_ok_iff.mp hread
  rw [text_eq_of_bytes (hbytes.trans hfound.symm)]
  exact ⟨hdenotes, hoffset⟩

/-! ### Writing and reading back -/

def canonicalSelection : DiceSelection → Option (SelectionMode × DigitRun)
  | .all => none
  | .keepHighest kept => some (.keepHighest, .ofNumber kept)
  | .keepLowest kept => some (.keepLowest, .ofNumber kept)
  | .dropHighest dropped => some (.dropHighest, .ofNumber dropped)
  | .dropLowest dropped => some (.dropLowest, .ofNumber dropped)

def canonicalOffset (offset : ℤ) : Option (Bool × DigitRun) :=
  if 0 < offset then some (false, .ofNumber offset.toNat)
  else if offset < 0 then some (true, .ofNumber (-offset).toNat)
  else none

def canonicalText (expr : DiceExpr) : DiceText where
  count := .ofNumber expr.count
  sides := .ofNumber expr.sides
  selection := canonicalSelection expr.selection
  offset := canonicalOffset expr.offset

theorem shortest_ofNumber (number : ℕ) : DiceText.Shortest (.ofNumber number) := by
  unfold DiceText.Shortest
  rw [DigitRun.number_ofNumber]
  rfl

theorem canonicalText_denotes (expr : DiceExpr) : (canonicalText expr).Denotes expr where
  count := DigitRun.number_ofNumber _
  sides := DigitRun.number_ofNumber _
  selection := by
    show selectionOf (canonicalSelection expr.selection) = expr.selection
    cases expr.selection <;>
      simp [canonicalSelection, selectionOf, SelectionMode.select]
  offset := by
    show offsetOf (canonicalOffset expr.offset) = expr.offset
    unfold canonicalOffset
    split_ifs with hpos hneg <;> simp [offsetOf] <;> omega

theorem canonicalText_canonical (expr : DiceExpr) : (canonicalText expr).Canonical where
  count := shortest_ofNumber _
  sides := shortest_ofNumber _
  selection := by
    show ∀ piece ∈ canonicalSelection expr.selection, DiceText.Shortest piece.2
    cases expr.selection <;> simp [canonicalSelection, shortest_ofNumber]
  offset := by
    show ∀ piece ∈ canonicalOffset expr.offset, DiceText.Shortest piece.2 ∧ piece.2.number ≠ 0
    unfold canonicalOffset
    split_ifs with hpos hneg <;> simp [shortest_ofNumber] <;> omega

theorem displaySelection_selectionOf {piece : Option (SelectionMode × DigitRun)}
    (hpiece : ∀ found ∈ piece, DiceText.Shortest found.2) :
    displaySelection (selectionOf piece) = selectionBytes piece := by
  cases piece with
  | none => rfl
  | some piece =>
    obtain ⟨mode, run⟩ := piece
    have hshort : run.bytes = Decimal.digits run.number := hpiece _ rfl
    rw [selectionBytes, hshort]
    cases mode <;> rfl

theorem displayOffset_offsetOf {piece : Option (Bool × DigitRun)}
    (hpiece : ∀ found ∈ piece, DiceText.Shortest found.2 ∧ found.2.number ≠ 0) :
    displayOffset (offsetOf piece) = offsetBytes piece := by
  cases piece with
  | none => rfl
  | some piece =>
    obtain ⟨negative, run⟩ := piece
    obtain ⟨hshort, hzero⟩ := hpiece _ rfl
    have hbytes : run.bytes = Decimal.digits run.number := hshort
    have hnumber : run.number ≠ 0 := hzero
    rw [offsetBytes, hbytes]
    unfold displayOffset
    cases negative with
    | true =>
      have hvalue : offsetOf (some (true, run)) = -(run.number : ℤ) := rfl
      rw [hvalue, if_neg (by omega), if_pos (by omega), neg_neg, Int.toNat_natCast]
      rfl
    | false =>
      have hvalue : offsetOf (some (false, run)) = run.number := rfl
      rw [hvalue, if_pos (by omega), Int.toNat_natCast]
      rfl

/-- `Display` writes the one canonical text that denotes the expression. -/
theorem display_eq {text : DiceText} (hcanonical : text.Canonical) (hdenotes : text.Denotes expr) :
    display expr = text.bytes := by
  unfold display DiceText.bytes
  rw [← hdenotes.count, ← hdenotes.sides, ← hdenotes.selection, ← hdenotes.offset,
    displaySelection_selectionOf hcanonical.selection, displayOffset_offsetOf hcanonical.offset,
    hcanonical.count, hcanonical.sides]

/-- The bytes that `Display` writes are ASCII. -/
theorem display_ascii (expr : DiceExpr) : ∀ byte ∈ display expr, byte.toNat < 128 := by
  have hdigits (number : ℕ) : ∀ byte ∈ Decimal.digits number, byte.toNat < 128 := by
    intro byte hbyte
    have hrange := Decimal.isDigit_iff.mp (Decimal.allDigits_digits number byte hbyte)
    omega
  have hselection : ∀ byte ∈ displaySelection expr.selection, byte.toNat < 128 := by
    cases expr.selection with
    | all => exact nofun
    | _ =>
      unfold displaySelection
      rw [forall_mem_append]
      exact ⟨forall_mem_cons.mpr
        ⟨by decide, List.forall_mem_singleton.mpr (by decide)⟩, hdigits _⟩
  have hoffset : ∀ byte ∈ displayOffset expr.offset, byte.toNat < 128 := by
    unfold displayOffset
    split_ifs
    · exact forall_mem_cons.mpr ⟨by decide, hdigits _⟩
    · exact forall_mem_cons.mpr ⟨by decide, hdigits _⟩
    · exact nofun
  unfold display
  rw [forall_mem_append, forall_mem_cons, forall_mem_append, forall_mem_append]
  exact ⟨hdigits _, by decide, hdigits _, hselection, hoffset⟩

theorem utf8_toText (expr : DiceExpr) : utf8Bytes (toText expr) = display expr :=
  Decimal.utf8_asciiText (display_ascii expr)

/-- The text that `Display` writes stays within the input limit. -/
theorem length_display_le (hoffset : InI32 expr.offset) :
    (display expr).length ≤ maxDiceInputBytes := by
  have hshort (number : ℕ) (hlow : number < 10 ^ 19) : (Decimal.digits number).length ≤ 19 :=
    Decimal.length_digits_le (by decide) hlow
  have hcount := expr.count_le
  have hsides := expr.sides_le
  have hfits := expr.fits
  unfold maxDiceCount at hcount
  unfold maxDieSides at hsides
  unfold InI32 i32Min i32Max at hoffset
  have hselection : (displaySelection expr.selection).length ≤ 21 := by
    cases hmode : expr.selection with
    | all => exact Nat.zero_le _
    | _ operand =>
      have hoperand : operand < 10 ^ 19 := by
        rw [hmode] at hfits
        unfold DiceSelection.Fits at hfits
        omega
      unfold displaySelection
      rw [length_append]
      exact Nat.add_le_add_left (hshort _ hoperand) 2
  have hsigned : (displayOffset expr.offset).length ≤ 20 := by
    unfold displayOffset
    split_ifs
    · exact Nat.succ_le_succ (hshort _ (by omega))
    · exact Nat.succ_le_succ (hshort _ (by omega))
    · exact Nat.zero_le _
  have hcountDigits := hshort expr.count (by omega)
  have hsidesDigits := hshort expr.sides (by omega)
  unfold display maxDiceInputBytes
  simp only [length_append, length_cons]
  omega

/-- Parsing what `Display` writes gives the expression back. -/
theorem parse_toText (hoffset : InI32 expr.offset) : parse (toText expr) = .ok expr := by
  rw [parse_eq_ok_iff, utf8_toText]
  exact ⟨length_display_le hoffset, canonicalText expr,
    (display_eq (canonicalText_canonical expr) (canonicalText_denotes expr)).symm,
    canonicalText_denotes expr, hoffset⟩

/-! ### Faults -/

/-- A fault names a byte offset within an input. -/
def FaultWithin (length : ℕ) (error : RulesError) : Prop := ∃ offset ≤ length, error = fault offset

variable {error : RulesError}

theorem takeNumber_fault {before : List UInt8} {start : ℕ}
    (hread : takeNumber (before ++ rest) before.length start = .error error) :
    error = fault start := by
  rw [takeNumber_eq] at hread
  split_ifs at hread
  injection hread with hread
  exact hread.symm

theorem takeNumber_zero_fault {bytes : List UInt8} {start : ℕ}
    (hread : takeNumber bytes 0 start = .error error) : error = fault start :=
  @takeNumber_fault bytes error [] start hread

theorem parseSelection_fault {before : List UInt8} {count : ℕ} (hcount : count ≤ maxDiceCount)
    (hread : parseSelection (before ++ rest) before.length count = .error error) :
    FaultWithin (before ++ rest).length error := by
  have hbefore : before.length ≤ (before ++ rest).length :=
    length_append ▸ Nat.le_add_right _ _
  by_cases hstart : SelectionStops none rest
  · rw [parseSelection_eq_all before rest count hstart] at hread
    exact nomatch hread
  · by_cases hmodes : ∀ (mode : SelectionMode) (after : List UInt8), rest ≠ mode.letters ++ after
    · rw [parseSelection_eq_refused before rest count hstart hmodes] at hread
      injection hread with hread
      exact ⟨before.length, hbefore, hread.symm⟩
    · push Not at hmodes
      obtain ⟨mode, tail, rfl⟩ := hmodes
      have hnext : before.length + 2 ≤ (before ++ (mode.letters ++ tail)).length := by
        rw [length_append, length_append]
        cases mode <;> exact Nat.add_le_add_left (Nat.le_add_right 2 _) _
      rw [parseSelection_eq_mode before tail count mode hcount] at hread
      split at hread
      · next failed htake =>
        injection hread with hread
        exact ⟨before.length + 2, hnext, hread ▸ takeNumber_fault htake⟩
      · injection hread with hread
        exact ⟨before.length + 2, hnext, hread.symm⟩
      · split_ifs at hread
        injection hread with hread
        exact ⟨before.length, hbefore, hread.symm⟩

theorem parseOffset_fault {before : List UInt8}
    (hread : parseOffset (before ++ rest) before.length = .error error) :
    FaultWithin (before ++ rest).length error := by
  have hbefore : before.length ≤ (before ++ rest).length :=
    length_append ▸ Nat.le_add_right _ _
  by_cases hstart : OffsetStops none rest
  · rw [parseOffset_eq_zero before rest hstart] at hread
    exact nomatch hread
  · obtain ⟨negative, tail, rfl⟩ := exists_sign_of_not_stops hstart
    have hnext : before.length + 1 ≤ (before ++ signByte negative :: tail).length := by
      rw [length_append, length_cons]
      omega
    rw [parseOffset_eq_sign before tail negative] at hread
    split at hread
    · next failed htake =>
      injection hread with hread
      exact ⟨before.length, hbefore, hread ▸ takeNumber_fault htake⟩
    · injection hread with hread
      exact ⟨before.length + 1, hnext, hread.symm⟩
    · split_ifs at hread
      all_goals
        injection hread with hread
        exact ⟨before.length, hbefore, hread.symm⟩

theorem parseTail_fault {before : List UInt8} {count : ℕ} (hcount : count ≤ maxDiceCount)
    (hread : parseTail (before ++ rest) before.length count sides = .error error) :
    FaultWithin (before ++ rest).length error := by
  unfold parseTail at hread
  split at hread
  · next failed hselection =>
    injection hread with hread
    exact hread ▸ parseSelection_fault hcount hselection
  · next kept afterSelection hselection =>
    obtain ⟨selection, tail, rfl, -, -, -, rfl⟩ := (parseSelection_eq_ok_iff hcount).mp hselection
    rw [← append_assoc, ← length_append] at hread
    rw [← append_assoc]
    split at hread
    · next failed hoffset =>
      injection hread with hread
      exact hread ▸ parseOffset_fault hoffset
    · next added afterOffset hoffset =>
      obtain ⟨offset, after, rfl, -, -, -, rfl⟩ := parseOffset_eq_ok_iff.mp hoffset
      split_ifs at hread with hend
      · injection hread with hread
        refine ⟨_, ?_, hread.symm⟩
        simp only [length_append]
        omega
      · split at hread
        · exact nomatch hread
        · injection hread with hread
          exact ⟨0, Nat.zero_le _, hread.symm⟩

theorem parse_fault {input : String} (hread : parse input = .error error) :
    (maxDiceInputBytes < (utf8Bytes input).length ∧ error = .at .limitExceeded "/dice/input") ∨
      ((utf8Bytes input).length ≤ maxDiceInputBytes ∧
        FaultWithin (utf8Bytes input).length error) := by
  unfold parse at hread
  generalize utf8Bytes input = bytes at hread ⊢
  dsimp only at hread
  by_cases hlong : bytes.length > maxDiceInputBytes
  · rw [if_pos hlong] at hread
    injection hread with hread
    exact .inl ⟨hlong, hread.symm⟩
  rw [if_neg hlong] at hread
  refine .inr ⟨not_lt.mp hlong, ?_⟩
  split at hread
  · next failed hcount =>
    injection hread with hread
    exact ⟨0, Nat.zero_le _, hread ▸ takeNumber_zero_fault hcount⟩
  · injection hread with hread
    exact ⟨0, Nat.zero_le _, hread.symm⟩
  · next count index hcount =>
    obtain ⟨countRun, rest, hbytes, -, -, rfl, rfl⟩ := takeNumber_zero_eq_some_iff.mp hcount
    have hindex : countRun.bytes.length ≤ bytes.length := by
      rw [hbytes, length_append]
      exact Nat.le_add_right _ _
    split_ifs at hread with hcountRange hletter
    · injection hread with hread
      exact ⟨0, Nat.zero_le _, hread.symm⟩
    · injection hread with hread
      exact ⟨_, hindex, hread.symm⟩
    · obtain ⟨tail, rfl, hbefore, hafter⟩ :=
        exists_after_separator countRun.bytes (hbytes ▸ not_not.mp hletter)
      have hnext : (countRun.bytes ++ [100]).length ≤ bytes.length := by
        rw [hbytes, hbefore]
        exact (List.prefix_append _ _).length_le
      rw [hafter] at hread
      split at hread
      · next failed hsides =>
        injection hread with hread
        rw [hbytes, hbefore] at hsides
        exact ⟨_, hnext, hread ▸ takeNumber_fault hsides⟩
      · injection hread with hread
        exact ⟨_, hnext, hread.symm⟩
      · next sides next hsides =>
        rw [hbytes, hbefore] at hsides
        obtain ⟨sidesRun, after, rfl, -, -, rfl, rfl⟩ := takeNumber_eq_some_iff.mp hsides
        split_ifs at hread with hsidesRange
        · injection hread with hread
          exact ⟨_, hnext, hread.symm⟩
        · rw [hbytes, hbefore, ← append_assoc] at hread ⊢
          rw [← length_append] at hread
          exact parseTail_fault (by omega) hread

/-! ### The notation as a whole -/

/-- The notation of a constructed expression is within the limit and reads back. A text is accepted
exactly when it is within the limit and in the grammar with its numbers in range, and gives what it
denotes. A refused text within the limit names an offset within it; a longer one is refused as a
whole. What is written after reading is the one canonical text, and it reads back the same. -/
theorem notation_exact :
    (∀ (count sides : ℕ) (selection : DiceSelection) (offset : ℤ) (expr : DiceExpr),
      InI32 offset → new count sides selection offset = .ok expr → parse (toText expr) = .ok expr ∧
          (utf8Bytes (toText expr)).length ≤ maxDiceInputBytes) ∧
    (∀ input : String, (∃ expr, parse input = .ok expr) ↔
      (utf8Bytes input).length ≤ maxDiceInputBytes ∧
        ∃ text : DiceText, text.bytes = utf8Bytes input ∧ text.InRange) ∧
    (∀ (input : String) (expr : DiceExpr) (text : DiceText), parse input = .ok expr →
      text.bytes = utf8Bytes input → text.Denotes expr ∧ InI32 expr.offset) ∧
    (∀ (input : String) (error : RulesError), parse input = .error error →
      (maxDiceInputBytes < (utf8Bytes input).length ∧ error = .at .limitExceeded "/dice/input") ∨
        ((utf8Bytes input).length ≤ maxDiceInputBytes ∧
          FaultWithin (utf8Bytes input).length error)) ∧
    ∀ (input : String) (expr : DiceExpr), parse input = .ok expr → parse (toText expr) = .ok expr ∧
        ∃ text : DiceText, text.bytes = utf8Bytes (toText expr) ∧ text.Canonical ∧
          text.Denotes expr ∧ ∀ other : DiceText, other.Canonical → other.Denotes expr →
            other = text := by
  refine ⟨?_, fun _ ↦ parse_accepts_iff, fun _ _ _ ↦ denotes_of_parse, fun _ _ ↦ parse_fault, ?_⟩
  · intro count sides selection offset expr hoffset hnew
    have hexpr : InI32 expr.offset := (new_eq_ok_iff.mp hnew).2.2.2.symm ▸ hoffset
    rw [utf8_toText]
    exact ⟨parse_toText hexpr, length_display_le hexpr⟩
  · intro input expr hread
    obtain ⟨-, -, -, -, hoffset⟩ := parse_eq_ok_iff.mp hread
    have hwritten := display_eq (canonicalText_canonical expr) (canonicalText_denotes expr)
    refine ⟨parse_toText hoffset, canonicalText expr, ?_, canonicalText_canonical expr,
      canonicalText_denotes expr, ?_⟩
    · rw [utf8_toText, hwritten]
    · intro other hcanonical hdenotes
      exact text_eq_of_bytes ((display_eq hcanonical hdenotes).symm.trans hwritten)

/-- Four dice keeping the highest three with the least offset read back. -/
theorem least_offset_read_back :
    ∃ expr, new 4 6 (.keepHighest 3) (-2147483648) = .ok expr ∧ parse (toText expr) = .ok expr :=
  ⟨_, rfl, (notation_exact.1 4 6 (.keepHighest 3) (-2147483648) _ (by decide) rfl).1⟩

/-- A text of 129 digits is refused without an offset within it. -/
theorem long_text_names_no_offset :
    ∃ error, parse (Decimal.asciiText (List.replicate 129 49)) = .error error ∧
      ¬ FaultWithin (utf8Bytes (Decimal.asciiText (List.replicate 129 49))).length error := by
  have hbytes : utf8Bytes (Decimal.asciiText (List.replicate 129 49)) = List.replicate 129 49 :=
    Decimal.utf8_asciiText fun byte hbyte ↦ by
      rw [List.eq_of_mem_replicate hbyte]
      decide
  refine ⟨.at .limitExceeded "/dice/input", ?_, ?_⟩
  · unfold parse
    rw [hbytes]
    exact if_pos (by rw [List.length_replicate]; decide)
  · rintro ⟨offset, -, hfault⟩
    exact nomatch hfault

end DiceExpr

end Crpg.Rules
