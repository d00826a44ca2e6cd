import Mathlib.Order.WellFounded
import Crpg.Rules.Derived

/-!
# Graphs without cycles

When the depth-first search of a dependency graph ends without a cycle, every stat is accessible: no
dependency path goes on forever. A stat is coloured black when its references are exhausted, and by
then each of them is accessible; the references a frame has passed are accessible, except the one
the frame above explores (`Frames`). `accessible_of_findCycle` is the result.
-/

set_option autoImplicit false

namespace Crpg.Rules

open Crpg.Core Crpg.Lib

def Adjacency.Refers (adjacency : Adjacency) (reference stat : StatId) : Prop :=
  reference ∈ (adjacency.get? stat).getD []

/-- No dependency path from a stat goes on forever. -/
def Adjacency.Accessible (adjacency : Adjacency) (stat : StatId) : Prop :=
  Acc adjacency.Refers stat

/-! ### Colours -/

variable {colors : BTreeMap StatId Color}

theorem get?_of_paint {painted stat : StatId} {color found : Color}
    (hget : (colors.insert painted color).get? stat = some found) (hne : color ≠ found) :
    stat ≠ painted ∧ colors.get? stat = some found := by
  by_cases hsame : stat = painted
  · rw [hsame, BTreeMap.get?_insert_self, Option.some.injEq] at hget
    exact absurd hget hne
  · rw [BTreeMap.get?_insert_of_ne _ hsame] at hget
    exact ⟨hsame, hget⟩

theorem get?_eq_none_of_paint {painted stat : StatId} {color : Color}
    (hget : (colors.insert painted color).get? stat = none) : colors.get? stat = none := by
  by_cases hsame : stat = painted
  · rw [hsame, BTreeMap.get?_insert_self] at hget
    cases hget
  · rw [BTreeMap.get?_insert_of_ne _ hsame] at hget
    exact hget

theorem not_white_of_paint {painted stat : StatId} {color : Color} (hcolor : color ≠ .white)
    (hstat : colors.get? stat ≠ some .white) :
    (colors.insert painted color).get? stat ≠ some .white :=
  fun hwhite ↦ hstat (get?_of_paint hwhite hcolor).2

namespace Search

variable {adjacency : Adjacency} {search : Search}

def Frames (adjacency : Adjacency) : Option StatId → List (StatId × ℕ) → Prop
  | _, [] => True
  | above, (node, child) :: rest =>
    (∀ index < child, ∀ reference, ((adjacency.get? node).getD [])[index]? = some reference →
      adjacency.Accessible reference ∨ above = some reference) ∧
    Frames adjacency (some node) rest

/-- What the colours say: black stats are accessible, gray stats are on the stack, and every stat of
the graph has a colour. -/
structure Sound (adjacency : Adjacency) (search : Search) : Prop where
  black : ∀ stat, search.color.get? stat = some .black → adjacency.Accessible stat
  gray : ∀ stat, search.color.get? stat = some .gray → stat ∈ search.stack.map Prod.fst
  total : ∀ stat, search.color.get? stat = none → adjacency.get? stat = none
  frames : Frames adjacency none search.stack

/-- A stat outside the graph has no references. -/
theorem accessible_of_get?_eq_none {stat : StatId} (hnone : adjacency.get? stat = none) :
    adjacency.Accessible stat := by
  constructor
  intro reference hrefers
  rw [Adjacency.Refers, hnone] at hrefers
  exact absurd hrefers List.not_mem_nil

theorem Frames.discharge {above : StatId} {stack : List (StatId × ℕ)}
    (hframes : Frames adjacency (some above) stack) (habove : adjacency.Accessible above) :
    Frames adjacency none stack := by
  cases stack with
  | nil => trivial
  | cons frame rest =>
    refine ⟨fun index hindex reference hreference ↦ ?_, hframes.2⟩
    obtain haccessible | hsome := hframes.1 index hindex reference hreference
    · exact Or.inl haccessible
    · rw [Option.some.injEq] at hsome
      rw [← hsome]
      exact Or.inl habove

variable {node : StatId} {child : ℕ} {rest : List (StatId × ℕ)}

/-- Exhausting the references of a stat finishes it. -/
theorem Sound.finish (hsound : Sound adjacency search) (hstack : search.stack = (node, child) :: rest)
    (hnone : ((adjacency.get? node).getD [])[child]? = none) :
    Sound adjacency ⟨search.color.insert node .black, search.path.dropLast, rest⟩ := by
  have hframes := hsound.frames
  rw [hstack] at hframes
  have hnode : adjacency.Accessible node := by
    constructor
    intro reference hrefers
    obtain ⟨index, hindex⟩ := List.mem_iff_getElem?.mp hrefers
    have hlt : index < child := by
      have hlength := List.getElem?_eq_none_iff.mp hnone
      obtain ⟨hbound, -⟩ := List.getElem?_eq_some_iff.mp hindex
      omega
    exact (hframes.1 index hlt reference hindex).resolve_right nofun
  refine ⟨fun stat hblack ↦ ?_, fun stat hgray ↦ ?_,
    fun stat huncoloured ↦ hsound.total stat (get?_eq_none_of_paint huncoloured),
    hframes.2.discharge hnode⟩
  · by_cases hsame : stat = node
    · rw [hsame]
      exact hnode
    · rw [BTreeMap.get?_insert_of_ne _ hsame] at hblack
      exact hsound.black stat hblack
  · obtain ⟨hne, hbefore⟩ := get?_of_paint hgray nofun
    have hmem := hsound.gray stat hbefore
    rw [hstack, List.map_cons, List.mem_cons] at hmem
    exact hmem.resolve_left hne

variable {next : StatId}

/-- A finished reference is passed. -/
theorem Sound.pass (hsound : Sound adjacency search) (hstack : search.stack = (node, child) :: rest)
    (hnext : ((adjacency.get? node).getD [])[child]? = some next)
    (hblack : (search.color.get? next).getD .black = .black) :
    Sound adjacency { search with stack := (node, child + 1) :: rest } := by
  have haccessible : adjacency.Accessible next := by
    cases hcolor : search.color.get? next with
    | none => exact accessible_of_get?_eq_none (hsound.total next hcolor)
    | some color =>
      rw [hcolor, Option.getD_some] at hblack
      rw [hblack] at hcolor
      exact hsound.black next hcolor
  have hframes := hsound.frames
  have hgray := hsound.gray
  rw [hstack] at hframes hgray
  refine ⟨hsound.black, hgray, hsound.total, ?_, hframes.2⟩
  intro index hindex reference hreference
  by_cases hlast : index = child
  · rw [hlast, hnext, Option.some.injEq] at hreference
    rw [← hreference]
    exact Or.inl haccessible
  · exact hframes.1 index (by omega) reference hreference

/-- A new reference is explored in a frame of its own. -/
theorem Sound.descend (hsound : Sound adjacency search)
    (hstack : search.stack = (node, child) :: rest)
    (hnext : ((adjacency.get? node).getD [])[child]? = some next) :
    Sound adjacency ⟨search.color.insert next .gray, search.path ++ [next],
      (next, 0) :: (node, child + 1) :: rest⟩ := by
  have hframes := hsound.frames
  have hgrays := hsound.gray
  rw [hstack] at hframes hgrays
  refine ⟨fun stat hblack ↦ hsound.black stat (get?_of_paint hblack nofun).2,
    fun stat hgray ↦ ?_,
    fun stat huncoloured ↦ hsound.total stat (get?_eq_none_of_paint huncoloured), nofun, ?_,
    hframes.2⟩
  · rw [List.map_cons, List.mem_cons]
    by_cases hsame : stat = next
    · exact Or.inl hsame
    · rw [BTreeMap.get?_insert_of_ne _ hsame] at hgray
      exact Or.inr (hgrays stat hgray)
  · intro index hindex reference hreference
    by_cases hlast : index = child
    · rw [hlast, hnext] at hreference
      exact Or.inr hreference
    · obtain haccessible | hnone := hframes.1 index (by omega) reference hreference
      · exact Or.inl haccessible
      · cases hnone

/-- A search that ends without a cycle leaves the stack empty. -/
theorem Sound.searchFrom {fuel : ℕ} {final : Search} (hsound : Sound adjacency search)
    (hend : Rules.searchFrom adjacency fuel search = some (none, final)) :
    Sound adjacency final ∧ final.stack = [] ∧
      ∀ stat, search.color.get? stat ≠ some .white → final.color.get? stat ≠ some .white := by
  induction fuel generalizing search with
  | zero => cases hend
  | succ fuel ih =>
    rw [Rules.searchFrom] at hend
    cases hstack : search.stack with
    | nil =>
      rw [hstack] at hend
      cases hend
      exact ⟨hsound, hstack, fun _ h ↦ h⟩
    | cons frame rest =>
      obtain ⟨node, child⟩ := frame
      rw [hstack] at hend
      simp only at hend
      cases hnext : ((adjacency.get? node).getD [])[child]? with
      | none =>
        rw [hnext] at hend
        obtain ⟨hfinal, hempty, hkept⟩ := ih (hsound.finish hstack hnext) hend
        exact ⟨hfinal, hempty, fun stat hstat ↦ hkept stat (not_white_of_paint (by decide) hstat)⟩
      | some next =>
        rw [hnext] at hend
        simp only at hend
        cases hcolor : (search.color.get? next).getD .black with
        | gray =>
          rw [hcolor] at hend
          cases hend
        | white =>
          rw [hcolor] at hend
          obtain ⟨hfinal, hempty, hkept⟩ := ih (hsound.descend hstack hnext) hend
          exact ⟨hfinal, hempty, fun stat hstat ↦ hkept stat (not_white_of_paint (by decide) hstat)⟩
        | black =>
          rw [hcolor] at hend
          obtain ⟨hfinal, hempty, hkept⟩ := ih (hsound.pass hstack hnext hcolor) hend
          exact ⟨hfinal, hempty, hkept⟩

end Search

/-! ### All roots -/

variable {adjacency : Adjacency}

theorem accessible_of_searchRoots {roots : List StatId} {color : BTreeMap StatId Color}
    (hsound : Search.Sound adjacency ⟨color, [], []⟩)
    (hend : searchRoots adjacency roots color = some none) :
    ∃ final, Search.Sound adjacency ⟨final, [], []⟩ ∧
      (∀ stat, color.get? stat ≠ some .white → final.get? stat ≠ some .white) ∧
      ∀ root ∈ roots, final.get? root ≠ some .white := by
  induction roots generalizing color with
  | nil => exact ⟨color, hsound, fun _ h ↦ h, nofun⟩
  | cons root roots ih =>
    rw [searchRoots] at hend
    by_cases hwhite : color.get? root = some .white
    · rw [hwhite] at hend
      simp only at hend
      cases hsearch : searchFrom adjacency (searchFuel adjacency)
          ⟨color.insert root .gray, [root], [(root, 0)]⟩ with
      | none =>
        rw [hsearch] at hend
        cases hend
      | some found =>
        obtain ⟨cycle, search⟩ := found
        rw [hsearch] at hend
        cases cycle with
        | some cycle => cases hend
        | none =>
          have hstart : Search.Sound adjacency ⟨color.insert root .gray, [root], [(root, 0)]⟩ := by
            refine ⟨fun stat hblack ↦ hsound.black stat (get?_of_paint hblack nofun).2,
              fun stat hgray ↦ ?_,
              fun stat huncoloured ↦ hsound.total stat (get?_eq_none_of_paint huncoloured), nofun,
              trivial⟩
            by_cases hsame : stat = root
            · rw [hsame]
              exact List.mem_singleton.mpr rfl
            · rw [BTreeMap.get?_insert_of_ne _ hsame] at hgray
              exact absurd (hsound.gray stat hgray) List.not_mem_nil
          obtain ⟨hfinal, hempty, hkept⟩ := hstart.searchFrom hsearch
          have hbetween : Search.Sound adjacency ⟨search.color, [], []⟩ := by
            refine ⟨hfinal.black, fun stat hgray ↦ ?_, hfinal.total, trivial⟩
            have hmem := hfinal.gray stat hgray
            rw [hempty] at hmem
            exact hmem
          obtain ⟨final, hsound', hkept', hroots⟩ := ih hbetween hend
          refine ⟨final, hsound',
            fun stat hstat ↦ hkept' stat (hkept stat (not_white_of_paint (by decide) hstat)),
            fun other hother ↦ ?_⟩
          rw [List.mem_cons] at hother
          by_cases hsame : other = root
          · apply hkept' other (hkept other ?_)
            rw [hsame, BTreeMap.get?_insert_self]
            exact nofun
          · exact hroots other (hother.resolve_left hsame)
    · have hskip : searchRoots adjacency roots color = some none := by
        cases hcolor : color.get? root with
        | none =>
          rw [hcolor] at hend
          exact hend
        | some found =>
          rw [hcolor] at hend hwhite
          cases found with
          | white => exact absurd rfl hwhite
          | gray => exact hend
          | black => exact hend
      obtain ⟨final, hsound', hkept, hroots⟩ := ih hsound hskip
      refine ⟨final, hsound', hkept, fun other hother ↦ ?_⟩
      rw [List.mem_cons] at hother
      by_cases hsame : other = root
      · rw [hsame]
        exact hkept root hwhite
      · exact hroots other (hother.resolve_left hsame)

theorem accessible_of_findCycle (hnone : findCycle adjacency = some none) (stat : StatId) :
    adjacency.Accessible stat := by
  have hcolor : ∀ other, (adjacency.mapValues fun _ _ ↦ Color.white).get? other =
      (adjacency.get? other).map fun _ ↦ Color.white := fun other ↦ adjacency.get?_mapValues _ other
  have hstart : Search.Sound adjacency ⟨adjacency.mapValues fun _ _ ↦ .white, [], []⟩ := by
    refine ⟨fun other hblack ↦ ?_, fun other hgray ↦ ?_, fun other huncoloured ↦ ?_, trivial⟩
    · rw [hcolor, Option.map_eq_some_iff] at hblack
      obtain ⟨_, -, hfalse⟩ := hblack
      cases hfalse
    · rw [hcolor, Option.map_eq_some_iff] at hgray
      obtain ⟨_, -, hfalse⟩ := hgray
      cases hfalse
    · rw [hcolor, Option.map_eq_none_iff] at huncoloured
      exact huncoloured
  obtain ⟨final, hsound, -, hroots⟩ := accessible_of_searchRoots hstart hnone
  cases hstat : adjacency.get? stat with
  | none => exact Search.accessible_of_get?_eq_none hstat
  | some references =>
    have hnotWhite := hroots stat (adjacency.mem_keys_iff.mpr ⟨references, hstat⟩)
    cases hfinal : final.get? stat with
    | none =>
      rw [hsound.total stat hfinal] at hstat
      cases hstat
    | some color =>
      cases color with
      | white => exact absurd hfinal hnotWhite
      | gray => exact absurd (hsound.gray stat hfinal) List.not_mem_nil
      | black => exact hsound.black stat hfinal

end Crpg.Rules
