import Crpg.Lib.ClosedPath
import Crpg.Rules.Cycle

/-!
# The cycle that the search finds

The depth-first search of `find_cycle` ends within its fuel and returns nothing exactly when the
dependency graph has no directed cycle. The path holds the stats of the stack, which are the gray
ones, and each refers to the next (`Search.Trail`): so a gray reference closes a path of distinct
stats. The work left counts the references and the ends of the frames on the stack and of the white
stats, and each step takes one off (`Search.work`).
-/

set_option autoImplicit false

namespace Crpg.Rules

open Crpg.Core Crpg.Lib Relation

def Adjacency.Edge (adjacency : Adjacency) (stat reference : StatId) : Prop :=
  adjacency.Refers reference stat

/-- A directed cycle of the dependency graph. -/
def Adjacency.HasCycle (adjacency : Adjacency) : Prop := ∃ stat, TransGen adjacency.Edge stat stat

/-! ### Rotation -/

/-- The fold of `min` is a least member. -/
theorem foldl_min_spec (first : StatId) (rest : List StatId) :
    rest.foldl min first ∈ first :: rest ∧ ∀ stat ∈ first :: rest, rest.foldl min first ≤ stat := by
  induction rest generalizing first with
  | nil => exact ⟨List.mem_cons_self, fun stat hstat ↦ (List.mem_singleton.mp hstat).ge⟩
  | cons next rest ih =>
    obtain ⟨hmem, hleast⟩ := ih (min first next)
    rw [List.foldl_cons]
    constructor
    · rcases List.mem_cons.mp hmem with hhead | htail
      · rw [hhead]
        rcases min_choice first next with hmin | hmin
        · rw [hmin]
          exact List.mem_cons_self
        · rw [hmin]
          exact List.mem_cons_of_mem _ List.mem_cons_self
      · exact List.mem_cons_of_mem _ (List.mem_cons_of_mem _ htail)
    · intro stat hstat
      have hhead := hleast (min first next) List.mem_cons_self
      rcases List.mem_cons.mp hstat with rfl | hstat
      · exact hhead.trans (min_le_left _ _)
      · rcases List.mem_cons.mp hstat with rfl | hstat
        · exact hhead.trans (min_le_right _ _)
        · exact hleast stat (List.mem_cons_of_mem _ hstat)

/-- What a returned cycle is: a closed path along references whose first stat is the least. -/
structure IsLeastCycle (adjacency : Adjacency) (cycle : List StatId) : Prop where
  closed : ClosedPath adjacency.Edge cycle
  least : ∀ least ∈ cycle.head?, ∀ stat ∈ cycle, least ≤ stat

theorem isLeastCycle_rotateCycle {adjacency : Adjacency} {first : StatId} {rest : List StatId}
    (hsteps : (first :: (rest ++ [first])).IsChain adjacency.Edge)
    (hdistinct : (first :: rest).Nodup) : IsLeastCycle adjacency (rotateCycle (first :: rest)) := by
  obtain ⟨hmem, hleast⟩ := foldl_min_spec first rest
  unfold rotateCycle
  dsimp only
  generalize rest.foldl min first = least at hmem hleast
  have hindex : (first :: rest).idxOf least < (first :: rest).length :=
    List.idxOf_lt_length_iff.mpr hmem
  have hrotated : (first :: rest).rotate ((first :: rest).idxOf least) =
      least :: ((first :: rest).drop ((first :: rest).idxOf least + 1) ++
        (first :: rest).take ((first :: rest).idxOf least)) := by
    rw [List.rotate_eq_drop_append_take hindex.le, List.drop_eq_getElem_cons hindex,
      List.getElem_idxOf hindex, List.cons_append]
  have hcycle : (first :: rest) ~r (least :: ((first :: rest).drop
      ((first :: rest).idxOf least + 1) ++ (first :: rest).take ((first :: rest).idxOf least))) :=
    ⟨_, hrotated⟩
  rw [hrotated]
  refine ⟨ClosedPath.of_rotated hsteps hdistinct hcycle, ?_⟩
  intro head hhead stat hstat
  have hsame : least = head := Option.some.inj hhead
  rw [← hsame]
  rcases List.mem_append.mp hstat with hstat | hstat
  · exact hleast stat (hcycle.mem_iff.mpr hstat)
  · exact (List.mem_singleton.mp hstat).ge

/-! ### The trail of a search -/

/-- Between two roots no stat is gray, and the white stats are stats of the graph. -/
structure Rested (adjacency : Adjacency) (color : BTreeMap StatId Color) : Prop where
  gray : ∀ stat, color.get? stat ≠ some .gray
  white : ∀ stat, color.get? stat = some .white → stat ∈ adjacency.keys

namespace Search

variable {adjacency : Adjacency} {search : Search} {node next : StatId} {child : ℕ}
  {rest : List (StatId × ℕ)}

/-- The path of a search: the stats of its stack, bottom first, which are the gray stats, each
referring to the next. White stats are stats of the graph. -/
structure Trail (adjacency : Adjacency) (search : Search) : Prop where
  path : search.path = (search.stack.map Prod.fst).reverse
  gray : ∀ stat, search.color.get? stat = some .gray ↔ stat ∈ search.path
  white : ∀ stat, search.color.get? stat = some .white → stat ∈ adjacency.keys
  distinct : search.path.Nodup
  steps : search.path.IsChain adjacency.Edge

section

variable (htrail : Trail adjacency search)
include htrail

section

variable (hstack : search.stack = (node, child) :: rest)
include hstack

theorem Trail.path_eq : search.path = (rest.map Prod.fst).reverse ++ [node] := by
  rw [htrail.path, hstack, List.map_cons, List.reverse_cons]

theorem Trail.finish :
    Trail adjacency ⟨search.color.insert node .black, search.path.dropLast, rest⟩ := by
  have hpath := htrail.path_eq hstack
  have hrest : search.path.dropLast = (rest.map Prod.fst).reverse := by
    rw [hpath, List.dropLast_concat]
  have hdistinct := htrail.distinct
  have hsteps := htrail.steps
  rw [hpath] at hdistinct hsteps
  refine ⟨hrest, fun stat ↦ ?_, fun stat hwhite ↦ htrail.white stat (get?_of_paint hwhite nofun).2,
    hrest ▸ hdistinct.of_append_left, hrest ▸ hsteps.left_of_append⟩
  show (search.color.insert node .black).get? stat = some .gray ↔ stat ∈ search.path.dropLast
  rw [hrest]
  by_cases hsame : stat = node
  · have hout : node ∉ (rest.map Prod.fst).reverse := fun hin ↦
      (List.disjoint_of_nodup_append hdistinct) hin List.mem_cons_self
    rw [hsame, BTreeMap.get?_insert_self]
    exact ⟨fun h ↦ (nomatch h), fun h ↦ absurd h hout⟩
  · rw [BTreeMap.get?_insert_of_ne _ hsame, htrail.gray, hpath, List.mem_append,
      List.mem_singleton, or_iff_left hsame]

/-- Passing a reference leaves the trail. -/
theorem Trail.pass : Trail adjacency { search with stack := (node, child + 1) :: rest } := by
  refine ⟨?_, htrail.gray, htrail.white, htrail.distinct, htrail.steps⟩
  rw [htrail.path, hstack]
  rfl

theorem Trail.descend (hnext : ((adjacency.get? node).getD [])[child]? = some next)
    (hwhite : search.color.get? next = some .white) :
    Trail adjacency ⟨search.color.insert next .gray, search.path ++ [next],
      (next, 0) :: (node, child + 1) :: rest⟩ := by
  have hpath := htrail.path_eq hstack
  have hfresh : next ∉ search.path := by
    rw [← htrail.gray, hwhite]
    exact nofun
  refine ⟨?_, fun stat ↦ ?_,
    fun stat hleft ↦ htrail.white stat (get?_of_paint hleft nofun).2, ?_, ?_⟩
  · rw [hpath, List.map_cons, List.map_cons, List.reverse_cons, List.reverse_cons]
  · rw [List.mem_append, List.mem_singleton]
    by_cases hsame : stat = next
    · rw [hsame, BTreeMap.get?_insert_self]
      exact ⟨fun _ ↦ Or.inr rfl, fun _ ↦ rfl⟩
    · rw [BTreeMap.get?_insert_of_ne _ hsame, htrail.gray, or_iff_left hsame]
  · exact List.nodup_append.mpr ⟨htrail.distinct, List.nodup_singleton _,
      fun stat hstat other hother hsame ↦
        hfresh (List.mem_singleton.mp hother ▸ hsame ▸ hstat)⟩
  · have hedge : adjacency.Edge node next := List.mem_of_getElem? hnext
    refine List.IsChain.append htrail.steps (List.isChain_singleton _) ?_
    intro last hlast first hfirst
    rw [hpath, List.getLast?_concat, Option.mem_some_iff] at hlast
    rw [List.head?_cons, Option.mem_some_iff] at hfirst
    rw [← hlast, ← hfirst]
    exact hedge

theorem Trail.close (hnext : ((adjacency.get? node).getD [])[child]? = some next)
    (hgray : search.color.get? next = some .gray) : search.path.idxOf next < search.path.length ∧
      IsLeastCycle adjacency (rotateCycle (search.path.drop (search.path.idxOf next))) := by
  have hmem := (htrail.gray next).mp hgray
  have hindex := List.idxOf_lt_length_iff.mpr hmem
  refine ⟨hindex, ?_⟩
  have hdrop : search.path.drop (search.path.idxOf next) =
      next :: search.path.drop (search.path.idxOf next + 1) := by
    rw [List.drop_eq_getElem_cons hindex, List.getElem_idxOf hindex]
  rw [hdrop]
  apply isLeastCycle_rotateCycle
  · rw [← List.cons_append, ← hdrop]
    refine List.IsChain.append (htrail.steps.drop _) (List.isChain_singleton _) ?_
    intro last hlast first hfirst
    have hlast' : last = node := by
      rw [List.getLast?_drop, if_neg (not_le.mpr hindex), htrail.path_eq hstack,
        List.getLast?_concat, Option.mem_some_iff] at hlast
      exact hlast.symm
    rw [List.head?_cons, Option.mem_some_iff] at hfirst
    rw [hlast', ← hfirst]
    exact List.mem_of_getElem? hnext
  · rw [← hdrop]
    exact htrail.distinct.sublist (List.drop_sublist _ _)

end

/-- A cycle that a search returns is a closed path from its least stat; without one, no stat is left
gray. -/
theorem Trail.searchFrom_spec {fuel : ℕ} {found : Option (List StatId)} {final : Search}
    (hend : Rules.searchFrom adjacency fuel search = some (found, final)) :
    (∀ cycle ∈ found, IsLeastCycle adjacency cycle) ∧
      (found = none → Rested adjacency final.color) := by
  induction fuel generalizing search with
  | zero => cases hend
  | succ fuel ih =>
    rw [Rules.searchFrom] at hend
    cases hstack : search.stack with
    | nil =>
      rw [hstack, Option.some.injEq, Prod.mk.injEq] at hend
      rw [← hend.1, ← hend.2]
      refine ⟨fun _ h ↦ (by cases h), fun _ ↦ ⟨fun stat hgray ↦ ?_, htrail.white⟩⟩
      have hpath := (htrail.gray stat).mp hgray
      rw [htrail.path, hstack] at hpath
      exact List.not_mem_nil hpath
    | cons frame rest =>
      obtain ⟨node, child⟩ := frame
      rw [hstack] at hend
      simp only at hend
      cases hnext : ((adjacency.get? node).getD [])[child]? with
      | none =>
        rw [hnext] at hend
        exact ih (htrail.finish hstack) hend
      | some next =>
        rw [hnext] at hend
        simp only at hend
        cases hcolor : search.color.get? next with
        | none =>
          rw [hcolor] at hend
          exact ih (htrail.pass hstack) hend
        | some color =>
          rw [hcolor, Option.getD_some] at hend
          cases color with
          | gray =>
            obtain ⟨hindex, hcycle⟩ := htrail.close hstack hnext hcolor
            simp only [if_pos hindex, Option.some.injEq, Prod.mk.injEq] at hend
            rw [← hend.1]
            refine ⟨fun cycle hsame ↦ ?_, fun h ↦ by cases h⟩
            rw [← Option.some.inj hsame]
            exact hcycle
          | white => exact ih (htrail.descend hstack hnext hcolor) hend
          | black => exact ih (htrail.pass hstack) hend

end

/-! ### The work left -/

/-- The steps that a stat takes: one for each reference and one for its end. -/
def weight (refs : List StatId) : ℕ := refs.length + 1

def whiteWork (adjacency : Adjacency) (color : BTreeMap StatId Color) : ℕ :=
  (adjacency.filter fun stat _ ↦ color.get? stat = some .white).sum weight

def stackWork (adjacency : Adjacency) (stack : List (StatId × ℕ)) : ℕ :=
  (stack.map fun frame ↦ weight (((adjacency.get? frame.1).getD []).drop frame.2)).sum

def work (adjacency : Adjacency) (search : Search) : ℕ :=
  stackWork adjacency search.stack + whiteWork adjacency search.color

theorem filter_white_insert (color : BTreeMap StatId Color) (painted : StatId) {paint : Color}
    (hpaint : paint ≠ .white) :
    (adjacency.filter fun stat _ ↦ (color.insert painted paint).get? stat = some .white) =
      (adjacency.filter fun stat _ ↦ color.get? stat = some .white).erase painted := by
  apply BTreeMap.ext_get?
  intro stat
  rw [BTreeMap.get?_erase, BTreeMap.get?_filter, BTreeMap.get?_filter]
  by_cases hsame : stat = painted
  · rw [if_pos hsame, hsame, BTreeMap.get?_insert_self]
    simp [hpaint]
  · rw [if_neg hsame, BTreeMap.get?_insert_of_ne _ hsame]

theorem whiteWork_insert_le (color : BTreeMap StatId Color) (painted : StatId) {paint : Color}
    (hpaint : paint ≠ .white) :
    whiteWork adjacency (color.insert painted paint) ≤ whiteWork adjacency color := by
  unfold whiteWork
  rw [filter_white_insert color painted hpaint]
  generalize (adjacency.filter fun stat _ ↦ color.get? stat = some .white) = white
  cases hfound : white.get? painted with
  | none =>
    have hsame : white.erase painted = white := by
      apply BTreeMap.ext_get?
      intro stat
      rw [BTreeMap.get?_erase]
      split_ifs with hstat
      · rw [hstat, hfound]
      · rfl
    rw [hsame]
  | some refs => exact (Nat.le_add_right _ _).trans_eq (white.sum_erase hfound weight)

theorem whiteWork_insert_of_white {color : BTreeMap StatId Color}
    (hwhite : color.get? next = some .white) (hnext : next ∈ adjacency.keys) {paint : Color}
    (hpaint : paint ≠ .white) :
    whiteWork adjacency (color.insert next paint) + weight ((adjacency.get? next).getD []) =
      whiteWork adjacency color := by
  obtain ⟨refs, hrefs⟩ := adjacency.mem_keys_iff.mp hnext
  have hfound : (adjacency.filter fun stat _ ↦ color.get? stat = some .white).get? next =
      some refs := by
    rw [BTreeMap.get?_filter, hrefs]
    simp [hwhite]
  unfold whiteWork
  rw [filter_white_insert color next hpaint, hrefs, Option.getD_some]
  exact BTreeMap.sum_erase _ hfound weight

theorem whiteWork_le (color : BTreeMap StatId Color) :
    whiteWork adjacency color ≤ adjacency.sum weight := by
  have hsplit := adjacency.sum_filter_add
    (fun stat _ ↦ !decide (color.get? stat = some .white)) weight
  simp only [Bool.not_not] at hsplit
  exact (Nat.le_add_right _ _).trans_eq hsplit

theorem stackWork_cons (stack : List (StatId × ℕ)) : stackWork adjacency ((node, child) :: stack) =
      weight (((adjacency.get? node).getD []).drop child) + stackWork adjacency stack := rfl

/-- Passing a reference takes one off the frame. -/
theorem weight_drop (hnext : ((adjacency.get? node).getD [])[child]? = some next) :
    weight (((adjacency.get? node).getD []).drop child) =
      weight (((adjacency.get? node).getD []).drop (child + 1)) + 1 := by
  obtain ⟨hlt, -⟩ := List.getElem?_eq_some_iff.mp hnext
  unfold weight
  rw [List.length_drop, List.length_drop]
  omega

theorem Trail.searchFrom_ends {fuel : ℕ} (htrail : Trail adjacency search)
    (hfuel : work adjacency search < fuel) :
    ∃ result, Rules.searchFrom adjacency fuel search = some result := by
  induction fuel generalizing search with
  | zero => exact absurd hfuel (Nat.not_lt_zero _)
  | succ fuel ih =>
    rw [Rules.searchFrom]
    cases hstack : search.stack with
    | nil => exact ⟨_, rfl⟩
    | cons frame rest =>
      obtain ⟨node, child⟩ := frame
      unfold work at hfuel
      rw [hstack, stackWork_cons] at hfuel
      simp only
      cases hnext : ((adjacency.get? node).getD [])[child]? with
      | none =>
        refine ih (htrail.finish hstack) ?_
        have hpaint := @whiteWork_insert_le adjacency search.color node .black (by decide)
        unfold work
        dsimp only
        unfold weight at hfuel
        omega
      | some next =>
        rw [weight_drop hnext] at hfuel
        have hpass : work adjacency { search with stack := (node, child + 1) :: rest } < fuel := by
          unfold work
          rw [stackWork_cons]
          dsimp only
          omega
        simp only
        cases hcolor : search.color.get? next with
        | none => exact ih (htrail.pass hstack) hpass
        | some color =>
          rw [Option.getD_some]
          cases color with
          | gray => exact ⟨_, rfl⟩
          | white =>
            refine ih (htrail.descend hstack hnext hcolor) ?_
            have hpaint := whiteWork_insert_of_white hcolor (htrail.white next hcolor)
              (by decide : Color.gray ≠ .white)
            unfold work
            rw [stackWork_cons, stackWork_cons, List.drop_zero]
            dsimp only
            omega
          | black => exact ih (htrail.pass hstack) hpass

end Search

/-! ### All roots -/

variable {adjacency : Adjacency}

theorem Rested.trail {color : BTreeMap StatId Color} {root : StatId}
    (hrested : Rested adjacency color) :
    Search.Trail adjacency ⟨color.insert root .gray, [root], [(root, 0)]⟩ := by
  refine ⟨rfl, fun stat ↦ ?_, fun stat hleft ↦ hrested.white stat (get?_of_paint hleft nofun).2,
    List.nodup_singleton _, List.isChain_singleton _⟩
  rw [List.mem_singleton]
  by_cases hsame : stat = root
  · rw [hsame, BTreeMap.get?_insert_self]
    exact ⟨fun _ ↦ rfl, fun _ ↦ rfl⟩
  · rw [BTreeMap.get?_insert_of_ne _ hsame]
    exact ⟨fun hgray ↦ absurd hgray (hrested.gray stat), fun h ↦ absurd h hsame⟩

theorem Rested.searchRoots_spec {roots : List StatId} {color : BTreeMap StatId Color}
    (hrested : Rested adjacency color) : ∃ result, searchRoots adjacency roots color = some result ∧
      ∀ cycle ∈ result, IsLeastCycle adjacency cycle := by
  induction roots generalizing color with
  | nil => exact ⟨none, rfl, fun _ h ↦ by cases h⟩
  | cons root roots ih =>
    rw [searchRoots]
    cases hcolor : color.get? root with
    | none => exact ih hrested
    | some paint =>
      cases paint with
      | gray => exact ih hrested
      | black => exact ih hrested
      | white =>
        have hpaint := Search.whiteWork_insert_of_white hcolor (hrested.white root hcolor)
          (by decide : Color.gray ≠ .white)
        have hgraph := @Search.whiteWork_le adjacency color
        have hwork : Search.work adjacency ⟨color.insert root .gray, [root], [(root, 0)]⟩ <
            searchFuel adjacency := by
          have hfuel : searchFuel adjacency = adjacency.sum Search.weight + 1 := rfl
          have hempty : Search.stackWork adjacency [] = 0 := rfl
          unfold Search.work
          rw [Search.stackWork_cons, List.drop_zero, hempty, hfuel]
          dsimp only
          omega
        obtain ⟨⟨found, final⟩, hsearch⟩ := hrested.trail.searchFrom_ends hwork
        obtain ⟨hcycle, hnone⟩ := hrested.trail.searchFrom_spec hsearch
        simp only [hsearch]
        cases found with
        | none => exact ih (hnone rfl)
        | some cycle => exact ⟨some cycle, rfl, hcycle⟩

/-- `find_cycle` ends, and a cycle it returns is a closed path from its least stat. -/
theorem findCycle_spec (adjacency : Adjacency) : ∃ result, findCycle adjacency = some result ∧
      ∀ cycle ∈ result, IsLeastCycle adjacency cycle := by
  apply Rested.searchRoots_spec
  have hcolor (stat : StatId) : (adjacency.mapValues fun _ _ ↦ Color.white).get? stat =
      (adjacency.get? stat).map fun _ ↦ Color.white := adjacency.get?_mapValues _ stat
  constructor
  · intro stat hgray
    rw [hcolor, Option.map_eq_some_iff] at hgray
    obtain ⟨_, -, hfalse⟩ := hgray
    exact nomatch hfalse
  · intro stat hwhite
    rw [hcolor, Option.map_eq_some_iff] at hwhite
    obtain ⟨refs, hrefs, -⟩ := hwhite
    exact adjacency.mem_keys_iff.mpr ⟨refs, hrefs⟩

/-- `find_cycle` returns nothing exactly when the graph has no directed cycle. -/
theorem findCycle_eq_none_iff (adjacency : Adjacency) :
    findCycle adjacency = some none ↔ ¬ adjacency.HasCycle := by
  constructor
  · intro hnone ⟨stat, hcycle⟩
    exact not_transGen_of_acc (accessible_of_findCycle hnone stat) (transGen_swap.mp hcycle)
  · intro hacyclic
    obtain ⟨result, hresult, hcycle⟩ := findCycle_spec adjacency
    cases result with
    | none => exact hresult
    | some cycle => exact absurd (hcycle cycle rfl).closed.transGen hacyclic

end Crpg.Rules
