import Crpg.Net.Transport

/-!
# The undo history of the editor

`crpg-edit/src/history.rs`. An entry holds, for every path that one change touched, the canonical
bytes before and after it, and its size. The undo stack is oldest first and the redo stack has the
newest undone entry last. A commit empties the redo stack, pushes its entry and evicts the oldest
entries until there are at most `maxUndoEntries` of at most `maxHistoryBytes`.
-/

set_option autoImplicit false

namespace Crpg.Edit

open Crpg.Core Crpg.Net

/-- A logical path of a campaign. -/
abbrev SourcePath := String

/-- Canonical bytes of every document, by path. -/
abbrev Files := Crpg.Lib.BTreeMap SourcePath (List UInt8)

def maxUndoEntries : ℕ := 256

def maxHistoryBytes : ℕ := 33554432

/-- `PathBytes`: canonical bytes before and after, absent when the path was. -/
structure PathBytes where
  path : SourcePath
  before : Option (List UInt8)
  after : Option (List UInt8)
deriving DecidableEq

def sideBytes (side : Option (List UInt8)) : ℕ := side.elim 0 List.length

structure Entry where
  paths : List PathBytes
  bytes : ℕ
deriving DecidableEq

/-- `Entry::new`. -/
def Entry.new (paths : List PathBytes) : Entry :=
  ⟨paths, paths.foldl (fun sum path ↦ saturatingAdd usizeMax
    (saturatingAdd usizeMax sum (sideBytes path.before)) (sideBytes path.after)) 0⟩

structure History where
  undo : List Entry
  redo : List Entry
  bytes : ℕ
deriving DecidableEq

namespace History

/-- `History::default`. -/
def default : History := ⟨[], [], 0⟩

def newestUndo (history : History) : Option Entry := history.undo.getLast?

def newestRedo (history : History) : Option Entry := history.redo.getLast?

/-- The loop of `commit`: the oldest entries leave until both bounds hold. -/
def evict : List Entry → ℕ → List Entry × ℕ
  | [], bytes => ([], bytes)
  | oldest :: rest, bytes =>
    if maxUndoEntries < (oldest :: rest).length ∨ maxHistoryBytes < bytes then
      evict rest (bytes - oldest.bytes)
    else (oldest :: rest, bytes)

def commit (history : History) (entry : Entry) : History :=
  let cleared := history.redo.foldl (fun bytes dropped ↦ bytes - dropped.bytes) history.bytes
  let kept := evict (history.undo ++ [entry]) (saturatingAdd usizeMax cleared entry.bytes)
  ⟨kept.1, [], kept.2⟩

def moveToRedo (history : History) : History :=
  match history.undo.getLast? with
  | some entry => { history with undo := history.undo.dropLast, redo := history.redo ++ [entry] }
  | none => history

def moveToUndo (history : History) : History :=
  match history.redo.getLast? with
  | some entry => { history with undo := history.undo ++ [entry], redo := history.redo.dropLast }
  | none => history

end History

end Crpg.Edit
