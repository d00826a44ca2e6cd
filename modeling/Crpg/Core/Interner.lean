import Mathlib.Data.List.Nodup

/-!
# Interned strings

`crpg-core/src/intern.rs`. An `Interner` assigns dense handles to strings in first-intern order; the
table is the list of its strings without repetition, and a handle is a position in it. `Interners`
keeps one table for stats and one for tags. The `u32` bound on handles is left out: a table of more
than `2^32` strings does not fit a process. `Interners.Grows` bounds what is interned.
-/

set_option autoImplicit false

namespace Crpg.Core

/-- A runtime handle of a stat name. -/
abbrev StatId := ℕ

/-- A runtime handle of a tag name. -/
abbrev TagId := ℕ

/-- Strings with dense handles in first-intern order. -/
structure Interner where
  strings : List String
  nodup : strings.Nodup
deriving DecidableEq

namespace Interner

/-- The empty table. -/
def new : Interner := ⟨[], List.nodup_nil⟩

/-- The handle assigned to a string. -/
def get (interner : Interner) (text : String) : Option ℕ := interner.strings.idxOf? text

/-- Returns the existing handle of a string, or assigns the next one. -/
def intern (interner : Interner) (text : String) : ℕ × Interner :=
  if hknown : text ∈ interner.strings then (interner.strings.idxOf text, interner)
  else (interner.strings.length, ⟨interner.strings ++ [text], by
    rw [List.nodup_append]
    refine ⟨interner.nodup, List.nodup_singleton _, ?_⟩
    rintro other hother _ htext rfl
    rw [List.mem_singleton.mp htext] at hother
    exact hknown hother⟩)

def resolve (interner : Interner) (id : ℕ) : Option String := interner.strings[id]?

end Interner

/-- The two namespaces of handles. -/
structure Interners where
  stats : Interner
  tags : Interner
deriving DecidableEq

namespace Interners

/-- Empty namespaces. -/
def new : Interners := ⟨Interner.new, Interner.new⟩

def internStat (interners : Interners) (name : String) : StatId × Interners :=
  let interned := interners.stats.intern name
  (interned.1, { interners with stats := interned.2 })

def internTag (interners : Interners) (name : String) : TagId × Interners :=
  let interned := interners.tags.intern name
  (interned.1, { interners with tags := interned.2 })

def stat (interners : Interners) (name : String) : Option StatId := interners.stats.get name

def tag (interners : Interners) (name : String) : Option TagId := interners.tags.get name

end Interners

end Crpg.Core
