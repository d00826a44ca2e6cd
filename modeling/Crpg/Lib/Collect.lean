import Crpg.Lib.BTreeMap
import Mathlib.Data.List.Forall2

/-!
# Loops over a list

Three loops programs write over a list. `collect` sorts the items into an ordered map of lists by a
key some of them have; its entries are the items of each key, in order (`mem_entries_collect`). The
second loop keeps the best item so far; when the test it makes compares ranks, what it keeps is an
item no other outranks (`bestFrom_spec`). The third takes a step that may fail on every item and
stops at the first failure.
-/

set_option autoImplicit false

namespace Crpg.Lib

open List (mapM_cons mapM_nil mem_cons mem_cons_of_mem mem_cons_self)

variable {α κ : Type*} [LinearOrder κ]

/-! ### Collecting -/

def collectOne (key : α → Option κ) (groups : BTreeMap κ (List α)) (item : α) :
    BTreeMap κ (List α) :=
  match key item with
  | some found => groups.insert found ((groups.get? found).getD [] ++ [item])
  | none => groups

def collect (key : α → Option κ) (items : List α) : BTreeMap κ (List α) :=
  items.foldl (collectOne key) .empty

theorem get?_foldl_collectOne (key : α → Option κ) (items : List α) (groups : BTreeMap κ (List α))
    (found : κ) : (items.foldl (collectOne key) groups).get? found =
      if (items.filter fun item ↦ key item = some found) = [] then groups.get? found
      else some ((groups.get? found).getD [] ++ items.filter fun item ↦ key item = some found) := by
  induction items generalizing groups with
  | nil => simp
  | cons item rest ih =>
    rw [List.foldl_cons, ih]
    by_cases hkey : key item = some found
    · have hone : (collectOne key groups item).get? found =
          some ((groups.get? found).getD [] ++ [item]) := by
        rw [collectOne, hkey]
        exact BTreeMap.get?_insert_self ..
      have hsome : ¬item :: (rest.filter fun item ↦ key item = some found) = [] := nofun
      rw [hone, List.filter_cons_of_pos (by simpa using hkey), if_neg hsome]
      by_cases hrest : (rest.filter fun item ↦ key item = some found) = []
      · rw [if_pos hrest, hrest]
      · rw [if_neg hrest, Option.getD_some, List.append_assoc]
        rfl
    · have hone : (collectOne key groups item).get? found = groups.get? found := by
        unfold collectOne
        split
        · rename_i other hother
          have hne : found ≠ other := by
            intro heq
            rw [heq] at hkey
            exact hkey hother
          exact groups.get?_insert_of_ne hne _
        · rfl
      rw [hone, List.filter_cons_of_neg (by simpa using hkey)]

theorem mem_entries_collect {key : α → Option κ} {items members : List α} {found : κ} :
    (found, members) ∈ (collect key items).entries ↔
      members ≠ [] ∧ members = items.filter fun item ↦ key item = some found := by
  rw [BTreeMap.mem_entries_iff, collect, get?_foldl_collectOne, BTreeMap.get?_empty]
  by_cases hnone : (items.filter fun item ↦ key item = some found) = []
  · rw [if_pos hnone, hnone]
    constructor
    · exact nofun
    · exact fun hmembers ↦ absurd hmembers.2 hmembers.1
  · rw [if_neg hnone, Option.getD_none, List.nil_append, Option.some.injEq]
    constructor
    · rintro rfl
      exact ⟨hnone, rfl⟩
    · exact fun hmembers ↦ hmembers.2.symm

theorem collect_map {β : Type*} (key : β → Option κ) (transform : α → β) (items : List α) :
    collect key (items.map transform) =
      (collect (key ∘ transform) items).mapValues fun _ members ↦ members.map transform := by
  apply BTreeMap.ext_get?
  intro found
  have hfilter : ((items.map transform).filter fun item ↦ key item = some found) =
      (items.filter fun item ↦ (key ∘ transform) item = some found).map transform := by
    rw [List.filter_map]
    rfl
  rw [BTreeMap.get?_mapValues, collect, collect, get?_foldl_collectOne, get?_foldl_collectOne,
    BTreeMap.get?_empty, BTreeMap.get?_empty, hfilter]
  simp only [List.map_eq_nil_iff]
  split_ifs
  · rfl
  · rfl

/-! ### The best item -/

/-- The loop that keeps the best item so far. -/
def bestFrom (replaces : α → α → Bool) (first : α) (rest : List α) : α :=
  rest.foldl (fun best item ↦ if replaces item best then item else best) first

/-- The best item is one of them and no other outranks it. Assumes: an item replaces the best only
when it ranks at least as high, and only a replaced best may rank lower. -/
theorem bestFrom_spec {ρ : Type*} [LinearOrder ρ] {rank : α → ρ} {replaces : α → α → Bool}
    {first : α} {rest : List α} (hup : ∀ item ∈ first :: rest, ∀ best ∈ first :: rest,
      replaces item best = true → rank best ≤ rank item)
    (hkeep : ∀ item ∈ first :: rest, ∀ best ∈ first :: rest,
      replaces item best = false → rank item ≤ rank best) :
    bestFrom replaces first rest ∈ first :: rest ∧
      ∀ item ∈ first :: rest, rank item ≤ rank (bestFrom replaces first rest) := by
  induction rest generalizing first with
  | nil =>
    refine ⟨mem_cons_self .., fun item hitem ↦ ?_⟩
    rw [List.mem_singleton.mp hitem]
    exact le_rfl
  | cons second rest ih =>
    have hfirst : first ∈ first :: second :: rest := mem_cons_self ..
    have hsecond : second ∈ first :: second :: rest :=
      mem_cons_of_mem _ (mem_cons_self ..)
    have hlater : ∀ {chosen item : α}, chosen ∈ first :: second :: rest → item ∈ chosen :: rest →
        item ∈ first :: second :: rest := by
      intro chosen item hchosen hitem
      rw [mem_cons] at hitem
      obtain rfl | hitem := hitem
      · exact hchosen
      · exact mem_cons_of_mem _ (mem_cons_of_mem _ hitem)
    have hchosen : ∀ chosen ∈ first :: second :: rest, rank first ≤ rank chosen →
        rank second ≤ rank chosen → bestFrom replaces chosen rest ∈ first :: second :: rest ∧
          ∀ item ∈ first :: second :: rest, rank item ≤ rank (bestFrom replaces chosen rest) := by
      intro chosen hmem hle hle'
      obtain ⟨hbest, hmax⟩ := @ih chosen
        (fun item hitem best hbest ↦ hup item (hlater hmem hitem) best (hlater hmem hbest))
        (fun item hitem best hbest ↦ hkeep item (hlater hmem hitem) best (hlater hmem hbest))
      have htop := hmax chosen (mem_cons_self ..)
      refine ⟨hlater hmem hbest, fun item hitem ↦ ?_⟩
      rw [mem_cons, mem_cons] at hitem
      obtain rfl | rfl | hitem := hitem
      · exact hle.trans htop
      · exact hle'.trans htop
      · exact hmax item (mem_cons_of_mem _ hitem)
    rw [bestFrom, List.foldl_cons]
    by_cases hreplaces : replaces second first = true
    · rw [if_pos hreplaces]
      exact hchosen second hsecond (hup second hsecond first hfirst hreplaces) le_rfl
    · rw [if_neg hreplaces]
      rw [Bool.not_eq_true] at hreplaces
      exact hchosen first hfirst le_rfl (hkeep second hsecond first hfirst hreplaces)

/-! ### Loops that may fail -/

section Loops

variable {β ε : Type}

theorem exists_of_forall₂ {α β : Type*} {related : α → β → Prop} {items : List α} {values : List β}
    (hall : List.Forall₂ related items values) {value : β} (hmem : value ∈ values) :
    ∃ item ∈ items, related item value := by
  induction hall with
  | nil => cases hmem
  | cons hhead _ ih =>
    rcases mem_cons.mp hmem with rfl | hrest
    · exact ⟨_, mem_cons_self .., hhead⟩
    · obtain ⟨item, hitem, hrelated⟩ := ih hrest
      exact ⟨item, mem_cons_of_mem _ hitem, hrelated⟩

theorem exists_forall₂_iff {α β : Type*} {related : α → β → Prop} {items : List α} :
    (∃ values, List.Forall₂ related items values) ↔
      ∀ item ∈ items, ∃ value, related item value := by
  induction items with
  | nil => exact ⟨fun _ ↦ nofun, fun _ ↦ ⟨[], .nil⟩⟩
  | cons item rest ih =>
    rw [List.forall_mem_cons, ← ih]
    constructor
    · intro ⟨values, hall⟩
      cases hall with
      | cons hhead hrest => exact ⟨⟨_, hhead⟩, ⟨_, hrest⟩⟩
    · intro ⟨⟨value, hvalue⟩, ⟨values, hrest⟩⟩
      exact ⟨value :: values, .cons hvalue hrest⟩

/-- A loop that ends in success succeeded on every item. -/
theorem forall₂_of_mapM_eq_ok {α : Type} {step : α → Except ε β} {items : List α}
    {values : List β} (hmap : items.mapM step = .ok values) :
    List.Forall₂ (fun item value ↦ item ∈ items ∧ step item = .ok value) items values := by
  induction items generalizing values with
  | nil =>
    rw [mapM_nil] at hmap
    rw [← Except.ok.inj hmap]
    exact .nil
  | cons item rest ih =>
    rw [mapM_cons] at hmap
    cases hstep : step item with
    | error failure =>
      rw [hstep] at hmap
      exact nomatch hmap
    | ok value =>
      rw [hstep] at hmap
      cases hrest : rest.mapM step with
      | error failure =>
        rw [hrest] at hmap
        exact nomatch hmap
      | ok later =>
        rw [hrest] at hmap
        rw [← Except.ok.inj hmap]
        refine .cons ⟨mem_cons_self, hstep⟩ ?_
        exact (ih hrest).imp fun _ _ hlater ↦ ⟨mem_cons_of_mem _ hlater.1, hlater.2⟩

/-- A loop that ends in success succeeded on each item. -/
theorem exists_of_mapM_eq_ok {α : Type} {step : α → Except ε β} {items : List α}
    {values : List β} (hmap : items.mapM step = .ok values) {item : α} (hitem : item ∈ items) :
    ∃ value ∈ values, step item = .ok value := by
  obtain ⟨value, hvalue, -, hstep⟩ := exists_of_forall₂ (forall₂_of_mapM_eq_ok hmap).flip hitem
  exact ⟨value, hvalue, hstep⟩

theorem exists_of_mem_mapM {α : Type} {step : α → Except ε β} {items : List α} {values : List β}
    (hmap : items.mapM step = .ok values) {value : β} (hvalue : value ∈ values) :
    ∃ item ∈ items, step item = .ok value := by
  obtain ⟨item, hitem, -, hstep⟩ := exists_of_forall₂ (forall₂_of_mapM_eq_ok hmap) hvalue
  exact ⟨item, hitem, hstep⟩

theorem map_eq_of_mapM_eq_ok {α γ : Type} {step : α → Except ε β} {items : List α}
    {values : List β} {itemKey : α → γ} {valueKey : β → γ} (hmap : items.mapM step = .ok values)
    (hkey : ∀ item ∈ items, ∀ value, step item = .ok value → valueKey value = itemKey item) :
    values.map valueKey = items.map itemKey := by
  rw [eq_comm, ← List.forall₂_eq_eq_eq, List.forall₂_map_left_iff, List.forall₂_map_right_iff]
  exact (forall₂_of_mapM_eq_ok hmap).imp fun item value hok ↦ (hkey item hok.1 value hok.2).symm

theorem mapM_eq_ok_of_forall {α : Type} {step : α → Except ε β} {value : α → β} {items : List α}
    (hstep : ∀ item ∈ items, step item = .ok (value item)) :
    items.mapM step = .ok (items.map value) := by
  induction items with
  | nil => exact mapM_nil
  | cons item rest ih =>
    obtain ⟨hitem, hrest⟩ := List.forall_mem_cons.mp hstep
    rw [mapM_cons, hitem, ih hrest]
    rfl

/-- A loop that fails does so at the first item that fails. -/
theorem exists_of_mapM_eq_error {α : Type} {step : α → Except ε β} {items : List α} {failure : ε}
    (hmap : items.mapM step = .error failure) :
    ∃ before item after, items = before ++ item :: after ∧
      (∀ other ∈ before, ∃ value, step other = .ok value) ∧ step item = .error failure := by
  induction items with
  | nil =>
    rw [mapM_nil] at hmap
    exact nomatch hmap
  | cons item rest ih =>
    rw [mapM_cons] at hmap
    cases hstep : step item with
    | error other =>
      rw [hstep] at hmap
      rw [Except.error.inj hmap] at hstep
      exact ⟨[], item, rest, rfl, nofun, hstep⟩
    | ok value =>
      rw [hstep] at hmap
      cases hrest : rest.mapM step with
      | error other =>
        rw [hrest] at hmap
        obtain ⟨before, found, after, hsplit, hbefore, hfails⟩ :=
          ih (hrest.trans (congrArg _ (Except.error.inj hmap)))
        refine ⟨item :: before, found, after, congrArg _ hsplit, fun other hother ↦ ?_, hfails⟩
        rcases mem_cons.mp hother with rfl | hother
        · exact ⟨value, hstep⟩
        · exact hbefore other hother
      | ok later =>
        rw [hrest] at hmap
        exact nomatch hmap

/-- A loop of checks passes when every check does. -/
theorem forM_eq_ok_iff {α : Type} {step : α → Except ε Unit} {items : List α} :
    items.forM step = .ok () ↔ ∀ item ∈ items, step item = .ok () := by
  induction items with
  | nil => exact iff_of_true rfl nofun
  | cons item rest ih =>
    rw [List.forall_mem_cons, ← ih]
    cases hstep : step item with
    | error failure =>
      have hfails : (item :: rest).forM step = .error failure := by
        show (step item >>= fun _ ↦ rest.forM step) = _
        rw [hstep]
        rfl
      rw [hfails]
      exact iff_of_false nofun (fun hboth ↦ nomatch hboth.1)
    | ok _ =>
      have hpasses : (item :: rest).forM step = rest.forM step := by
        show (step item >>= fun _ ↦ rest.forM step) = _
        rw [hstep]
        rfl
      rw [hpasses]
      exact ⟨fun hrest ↦ ⟨rfl, hrest⟩, fun hboth ↦ hboth.2⟩

end Loops

end Crpg.Lib
