import Crpg.Core.Interner

/-!
# What interning keeps

Interning a string gives it a handle that resolves to it, and a table only grows at its end: a
handle that resolves keeps its string through every later interning (`Interner.Extends`). Two
handles of one string are the same.
-/

set_option autoImplicit false

namespace Crpg.Core

namespace Interner

/-- A table grows to another: its strings come first, in order. -/
def Extends (before after : Interner) : Prop := before.strings <+: after.strings

theorem Extends.refl (interner : Interner) : interner.Extends interner := List.prefix_rfl

theorem Extends.trans {first second third : Interner} (hfirst : first.Extends second)
    (hsecond : second.Extends third) : first.Extends third := List.IsPrefix.trans hfirst hsecond

theorem Extends.resolve {before after : Interner} (hextends : before.Extends after) {id : ℕ}
    {text : String} (hresolve : before.resolve id = some text) : after.resolve id = some text := by
  obtain ⟨later, hlater⟩ := hextends
  have hbound := (List.getElem?_eq_some_iff.mp hresolve).1
  unfold Interner.resolve
  rw [← hlater, List.getElem?_append_left hbound]
  exact hresolve

/-- Two handles of one string are the same. -/
theorem resolve_injective {interner : Interner} {first second : ℕ} {text : String}
    (hfirst : interner.resolve first = some text) (hsecond : interner.resolve second = some text) :
    first = second := by
  obtain ⟨hfirstBound, hfirstText⟩ := List.getElem?_eq_some_iff.mp hfirst
  obtain ⟨hsecondBound, hsecondText⟩ := List.getElem?_eq_some_iff.mp hsecond
  exact (interner.nodup.getElem_inj_iff).mp (hfirstText.trans hsecondText.symm)

theorem extends_intern (interner : Interner) (text : String) :
    interner.Extends (interner.intern text).2 := by
  unfold intern
  split_ifs with hknown
  · exact Extends.refl interner
  · exact List.prefix_append _ _

theorem length_intern_le (interner : Interner) (text : String) :
    (interner.intern text).2.strings.length ≤ interner.strings.length + 1 := by
  unfold intern
  split_ifs with hknown
  · exact Nat.le_succ _
  · exact Nat.le_of_eq List.length_append

theorem resolve_intern (interner : Interner) (text : String) :
    (interner.intern text).2.resolve (interner.intern text).1 = some text := by
  unfold intern resolve
  split_ifs with hknown
  · exact List.getElem?_idxOf hknown
  · exact List.getElem?_concat_length

end Interner

namespace Interners

/-- Both tables grow. -/
structure Extends (before after : Interners) : Prop where
  stats : before.stats.Extends after.stats
  tags : before.tags.Extends after.tags

theorem Extends.refl (interners : Interners) : interners.Extends interners :=
  ⟨Interner.Extends.refl _, Interner.Extends.refl _⟩

theorem Extends.trans {first second third : Interners} (hfirst : first.Extends second)
    (hsecond : second.Extends third) : first.Extends third :=
  ⟨hfirst.stats.trans hsecond.stats, hfirst.tags.trans hsecond.tags⟩

/-- Both tables grow, each by at most so many strings. -/
structure Grows (before after : Interners) (newStats newTags : ℕ) : Prop
    extends before.Extends after where
  stats_le : after.stats.strings.length ≤ before.stats.strings.length + newStats
  tags_le : after.tags.strings.length ≤ before.tags.strings.length + newTags

section Grows

variable {first second third : Interners} {newStats newTags moreStats moreTags : ℕ}

theorem Grows.refl (interners : Interners) (newStats newTags : ℕ) :
    interners.Grows interners newStats newTags :=
  ⟨Extends.refl _, Nat.le_add_right .., Nat.le_add_right ..⟩

theorem Grows.trans (hfirst : first.Grows second newStats newTags)
    (hsecond : second.Grows third moreStats moreTags) :
    first.Grows third (newStats + moreStats) (newTags + moreTags) := by
  obtain ⟨hextends, hstats, htags⟩ := hfirst
  obtain ⟨hlater, hmoreStats, hmoreTags⟩ := hsecond
  exact ⟨hextends.trans hlater, by omega, by omega⟩

theorem Grows.mono (hgrows : first.Grows second newStats newTags) (hstats : newStats ≤ moreStats)
    (htags : newTags ≤ moreTags) : first.Grows second moreStats moreTags :=
  ⟨hgrows.toExtends, Nat.le_trans hgrows.stats_le (Nat.add_le_add_left hstats _),
    Nat.le_trans hgrows.tags_le (Nat.add_le_add_left htags _)⟩

end Grows

theorem grows_internStat (interners : Interners) (name : String) :
    interners.Grows (interners.internStat name).2 1 0 :=
  ⟨⟨interners.stats.extends_intern name, Interner.Extends.refl _⟩,
    interners.stats.length_intern_le name, Nat.le_refl _⟩

theorem grows_internTag (interners : Interners) (name : String) :
    interners.Grows (interners.internTag name).2 0 1 :=
  ⟨⟨Interner.Extends.refl _, interners.tags.extends_intern name⟩, Nat.le_refl _,
    interners.tags.length_intern_le name⟩

end Interners

end Crpg.Core
