import Crpg.Net.Interest

/-!
# What a projection plans and leaves behind

`crpg-net/src/interest.rs`. Both projections of a view validate a context, mint ids for the keys
that enter, and render the visible rows before they touch the view (`Planned`). The lemmas here say
what that plan is in terms of the view and the context: which ids are minted, that keys and ids
correspond one to one, that the rendered rows are the visible rows in strict id order. After a
projection the live map holds exactly those rows with the health rendered for them
(`Planned.live_settled`), and the index still inverts it (`Planned.coherent_settled`).
-/

set_option autoImplicit false

namespace Crpg.Net

open Crpg.Core Crpg.Lib
open List (length_map map_cons map_map mem_cons mem_map mem_map_of_mem)

/-! ### Sorting by replica id -/

theorem sortByNet_perm {α : Type*} (net : α → NetId) (rows : List α) :
    (sortByNet net rows).Perm rows :=
  List.mergeSort_perm rows _

theorem sortByNet_sorted {α : Type*} (net : α → NetId) (rows : List α) :
    (sortByNet net rows).Pairwise fun first second ↦ net first ≤ net second := by
  have htrans : ∀ a b c : α, decide (net a ≤ net b) → decide (net b ≤ net c) →
      decide (net a ≤ net c) := fun a b c hab hbc ↦ by
    simp only [decide_eq_true_eq] at *
    exact le_trans hab hbc
  have htotal : ∀ a b : α, (decide (net a ≤ net b) || decide (net b ≤ net a)) = true :=
    fun a b ↦ by simpa using le_total (net a) (net b)
  exact (List.pairwise_mergeSort htrans htotal rows).imp fun h ↦ by simpa using h

theorem sortByNet_of_ascending {α : Type*} {net : α → NetId} {rows : List α}
    (hrows : rows.Pairwise fun first second ↦ net first < net second) : sortByNet net rows = rows :=
  List.mergeSort_of_pairwise (hrows.imp fun h ↦ by simpa using le_of_lt h)

/-! ### What a projection plans -/

theorem InterestView.mint_spec {next after : ℕ} {keys : List EntityKey}
    {minted : List (EntityKey × NetId)} (hmint : InterestView.mint next keys = .ok (minted, after)) :
    minted.map Prod.fst = keys ∧ after = next + keys.length ∧
      (minted.Pairwise fun first second ↦ first.2 < second.2) ∧
      ∀ pair ∈ minted, next ≤ pair.2 ∧ pair.2 < after := by
  induction keys generalizing next after minted with
  | nil =>
    simp only [InterestView.mint, Except.ok.injEq, Prod.mk.injEq] at hmint
    obtain ⟨rfl, rfl⟩ := hmint
    simp
  | cons key rest ih =>
    unfold InterestView.mint at hmint
    split_ifs at hmint with hnext
    split at hmint
    · cases hmint
    next later final hlater =>
      simp only [Except.ok.injEq, Prod.mk.injEq] at hmint
      obtain ⟨rfl, rfl⟩ := hmint
      obtain ⟨hkeys, hafter, hascending, hbounds⟩ := ih hlater
      refine ⟨by simp [hkeys], by simp only [List.length_cons]; omega,
        List.pairwise_cons.mpr ⟨fun pair hpair ↦ ?_, hascending⟩, fun pair hpair ↦ ?_⟩
      · exact PNat.coe_lt_coe _ _ |>.mp (Nat.lt_of_succ_le (hbounds pair hpair).1)
      · rcases mem_cons.mp hpair with rfl | hrest
        · simp only [PNat.mk_coe]
          omega
        · have hbound := hbounds pair hrest
          omega

theorem visibleRows_spec {context : ViewerContext} {key : EntityKey} {fact : EntityFact}
    (hvisible : (visibleRows context).get? key = some fact) :
    fact.key = key ∧ fact ∈ context.facts := by
  have hmem := BTreeMap.mem_of_get?_ofList hvisible
  obtain ⟨row, hrow, hpair⟩ := mem_map.mp hmem
  rw [Prod.mk.injEq] at hpair
  exact ⟨hpair.2 ▸ hpair.1, hpair.2 ▸ List.mem_of_mem_filter hrow⟩

theorem size_visibleRows_le (context : ViewerContext) :
    (visibleRows context).size ≤ context.facts.length := by
  refine le_trans (BTreeMap.size_ofList_le _) ?_
  rw [length_map]
  exact List.length_filter_le _ _

theorem identifyRows_spec {ids : BTreeMap EntityKey NetId} {entries : List (EntityKey × EntityFact)}
    {rows : List (NetId × EntityFact)} (hrows : identifyRows ids entries = some rows)
    (net : NetId) (fact : EntityFact) :
    (net, fact) ∈ rows ↔ ∃ key, (key, fact) ∈ entries ∧ ids.get? key = some net := by
  induction entries generalizing rows with
  | nil =>
    simp only [identifyRows, Option.some.injEq] at hrows
    simp [← hrows]
  | cons entry rest ih =>
    obtain ⟨key, found⟩ := entry
    unfold identifyRows at hrows
    split at hrows
    next head tail hhead htail =>
      rw [Option.some.injEq] at hrows
      subst hrows
      rw [mem_cons, ih htail, Prod.mk.injEq]
      constructor
      · rintro (⟨rfl, rfl⟩ | ⟨other, hother, hid⟩)
        · exact ⟨key, List.mem_cons_self .., hhead⟩
        · exact ⟨other, List.mem_cons_of_mem _ hother, hid⟩
      · rintro ⟨other, hother, hid⟩
        rcases mem_cons.mp hother with hsame | hlater
        · rw [Prod.mk.injEq] at hsame
          obtain ⟨rfl, rfl⟩ := hsame
          rw [hhead, Option.some.injEq] at hid
          exact Or.inl ⟨hid.symm, rfl⟩
        · exact Or.inr ⟨other, hlater, hid⟩
    next => cases hrows

theorem identifyRows_facts {ids : BTreeMap EntityKey NetId}
    {entries : List (EntityKey × EntityFact)} {rows : List (NetId × EntityFact)}
    (hrows : identifyRows ids entries = some rows) : rows.map Prod.snd = entries.map Prod.snd := by
  induction entries generalizing rows with
  | nil =>
    simp only [identifyRows, Option.some.injEq] at hrows
    simp [← hrows]
  | cons entry rest ih =>
    unfold identifyRows at hrows
    split at hrows
    next head tail _ htail =>
      rw [Option.some.injEq] at hrows
      simp [← hrows, ih htail]
    next => cases hrows

/-! ### What a view remembers -/

namespace InterestView

/-- The index of a view inverts its live map. -/
def Inverse (view : InterestView) : Prop :=
  ∀ net key, view.index.get? net = some key ↔ view.netId key = some net

/-- The invariant of a view: the index inverts the live map, and every id lies below the next one
to mint. -/
structure Coherent (view : InterestView) : Prop where
  inverse : view.Inverse
  minted : ∀ net key, view.netId key = some net → (net : ℕ) < view.nextId
  positive : 0 < view.nextId

theorem coherent_new (epoch : SessionEpoch) : (new epoch).Coherent :=
  ⟨fun net key ↦ by simp [new, netId], fun net key h ↦ by simp [new, netId] at h, by simp [new]⟩

variable {view : InterestView}

variable {net : NetId} {minted : List (EntityKey × NetId)} {key : EntityKey}

theorem Inverse.netId_injective (hview : view.Inverse) {first second : EntityKey}
    (hfirst : view.netId first = some net) (hsecond : view.netId second = some net) :
    first = second :=
  Option.some.inj (((hview net first).mpr hfirst).symm.trans ((hview net second).mpr hsecond))

theorem forget_live (view : InterestView) (removed : List (NetId × EntityKey)) (key : EntityKey) :
    (view.forget removed).live.get? key =
      if key ∈ removed.map Prod.snd then none else view.live.get? key := by
  induction removed generalizing view with
  | nil => simp [forget]
  | cons pair rest ih =>
    have hstep : (view.forget (pair :: rest)).live.get? key =
        (forget (view.forget [pair]) rest).live.get? key := rfl
    rw [hstep, ih]
    simp only [forget, List.foldl_cons, List.foldl_nil]
    simp only [map_cons, mem_cons]
    by_cases hrest : key ∈ rest.map Prod.snd
    · rw [if_pos hrest, if_pos (Or.inr hrest)]
    rw [if_neg hrest]
    by_cases hkey : key = pair.2
    · rw [if_pos (Or.inl hkey), hkey]
      split
      · simp [BTreeMap.get?_erase]
      · assumption
    · rw [if_neg (by simp only [hkey, hrest, or_self, not_false_iff])]
      split
      · simp [BTreeMap.get?_erase, hkey]
      · rfl

theorem Inverse.forget (hview : view.Inverse) (removed : List (NetId × EntityKey)) :
    (view.forget removed).Inverse := by
  refine List.foldlRecOn (motive := Inverse) removed _ hview ?_
  intro next hnext pair _
  split
  next entry hentry =>
    have hid : next.netId pair.2 = some entry.net := by simp [netId, hentry]
    intro net key
    change (next.index.erase entry.net).get? net = some key ↔
      ((next.live.erase pair.2).get? key).map LiveEntry.net = some net
    rw [BTreeMap.get?_erase, BTreeMap.get?_erase]
    by_cases hkey : key = pair.2
    · subst hkey
      simp only [if_true, Option.map_none, reduceCtorEq, iff_false]
      split_ifs with hnet
      · simp
      · rw [hnext, hid, Option.some.injEq]
        exact Ne.symm hnet
    · rw [if_neg hkey]
      split_ifs with hnet
      · subst hnet
        simp only [false_iff]
        exact fun hsame ↦ hkey (hnext.netId_injective hsame hid)
      · exact hnext net key
  next => exact hnext

theorem enter_live (view : InterestView) (minted : List (EntityKey × NetId)) :
    (view.enter minted).live = (minted.map fun pair ↦ (pair.1, (⟨pair.2, none⟩ : LiveEntry))).foldl
      (fun live pair ↦ live.insert pair.1 pair.2) view.live := by
  induction minted generalizing view with
  | nil => rfl
  | cons pair rest ih => exact ih _

theorem enter_live_of_notMem (hkey : key ∉ minted.map Prod.fst) :
    (view.enter minted).live.get? key = view.live.get? key := by
  rw [enter_live]
  refine BTreeMap.get?_foldl_insert_of_notMem _ _ ?_
  simpa [map_map, Function.comp_def] using hkey

theorem enter_live_of_mem (hnodup : (minted.map Prod.fst).Nodup) (hpair : (key, net) ∈ minted) :
    (view.enter minted).live.get? key = some ⟨net, none⟩ := by
  rw [enter_live]
  refine BTreeMap.get?_foldl_insert_of_mem _ ?_ (mem_map.mpr ⟨(key, net), hpair, rfl⟩)
  rwa [map_map, Function.comp_def]

/-- Entering fresh keys under fresh ids keeps the index an inverse. -/
theorem Inverse.enter (hview : view.Inverse) (hkeys : (minted.map Prod.fst).Nodup)
    (hnets : (minted.map Prod.snd).Nodup)
    (hfresh : ∀ pair ∈ minted, view.netId pair.1 = none ∧ view.index.get? pair.2 = none) :
    (view.enter minted).Inverse := by
  induction minted generalizing view with
  | nil => exact hview
  | cons pair rest ih =>
    obtain ⟨hkey, hnet⟩ := hfresh pair (List.mem_cons_self ..)
    rw [map_cons, List.nodup_cons] at hkeys hnets
    have hid (key : EntityKey) : ((view.live.insert pair.1 ⟨pair.2, none⟩).get? key).map
        LiveEntry.net = if key = pair.1 then some pair.2 else view.netId key := by
      rw [BTreeMap.get?_insert]
      split_ifs <;> rfl
    have hstep : Inverse { view with
        live := view.live.insert pair.1 ⟨pair.2, none⟩
        index := view.index.insert pair.2 pair.1 } := by
      intro net key
      change (view.index.insert pair.2 pair.1).get? net = some key ↔ Option.map _ _ = some net
      rw [hid, BTreeMap.get?_insert]
      split_ifs with hsame hother hother
      · simp [hsame, hother]
      · subst hsame
        rw [← hview, hnet, Option.some.injEq]
        simp [Ne.symm hother]
      · subst hother
        rw [hview, hkey, Option.some.injEq]
        simp [Ne.symm hsame]
      · exact hview net key
    refine ih hstep hkeys.2 hnets.2 fun other hother ↦ ⟨?_, ?_⟩
    · have hne : other.1 ≠ pair.1 := fun hsame ↦
        hkeys.1 (hsame ▸ mem_map_of_mem hother)
      exact (hid other.1).trans ((if_neg hne).trans (hfresh other (List.mem_cons_of_mem _ hother)).1)
    · have hne : other.2 ≠ pair.2 := fun hsame ↦
        hnets.1 (hsame ▸ mem_map_of_mem hother)
      exact (BTreeMap.get?_insert_of_ne _ hne _).trans
        (hfresh other (List.mem_cons_of_mem _ hother)).2

theorem recordHealth_netId (view : InterestView) (rows : List (NetId × EntityFact))
    (key : EntityKey) : (view.recordHealth rows).netId key = view.netId key := by
  refine List.foldlRecOn (motive := fun next : InterestView ↦ next.netId key = view.netId key)
    rows _ rfl ?_
  intro next hnext row _
  split
  next entry hentry =>
    rw [← hnext]
    simp only [netId, BTreeMap.get?_insert]
    split_ifs with hkey
    · simp [hkey, hentry]
    · rfl
  next => exact hnext

theorem recordHealth_index (view : InterestView) (rows : List (NetId × EntityFact)) :
    (view.recordHealth rows).index = view.index := by
  refine List.foldlRecOn (motive := fun next : InterestView ↦ next.index = view.index)
    rows _ rfl ?_
  intro next hnext row _
  split
  · exact hnext
  · exact hnext

theorem recordHealth_live_of_notMem {rows : List (NetId × EntityFact)}
    (hkey : ∀ row ∈ rows, row.2.key ≠ key) :
    (view.recordHealth rows).live.get? key = view.live.get? key := by
  refine List.foldlRecOn
    (motive := fun next : InterestView ↦ next.live.get? key = view.live.get? key) rows _ rfl ?_
  intro next hnext row hrow
  split
  · rw [← hnext]
    exact BTreeMap.get?_insert_of_ne _ (Ne.symm (hkey row hrow)) _
  · exact hnext

theorem recordHealth_live_of_mem {rows : List (NetId × EntityFact)} {row : NetId × EntityFact}
    {entry : LiveEntry} (hnodup : (rows.map fun row ↦ row.2.key).Nodup) (hrow : row ∈ rows)
    (hentry : view.live.get? row.2.key = some entry) :
    (view.recordHealth rows).live.get? row.2.key =
      some { entry with lastHealth := renderedHealth row.2 } := by
  induction rows generalizing view with
  | nil => cases hrow
  | cons head rest ih =>
    rw [map_cons, List.nodup_cons] at hnodup
    rcases mem_cons.mp hrow with rfl | hlater
    · have hrest : ∀ other ∈ rest, other.2.key ≠ row.2.key := fun other hother hsame ↦
        hnodup.1 (hsame ▸ mem_map_of_mem (f := fun row ↦ row.2.key) hother)
      have hstep : view.recordHealth (row :: rest) = recordHealth { view with
          live := view.live.insert row.2.key { entry with lastHealth := renderedHealth row.2 } }
          rest := by
        simp only [recordHealth, List.foldl_cons, hentry]
      rw [hstep, recordHealth_live_of_notMem hrest]
      exact BTreeMap.get?_insert_self ..
    · have hne : row.2.key ≠ head.2.key := fun hsame ↦
        hnodup.1 (hsame ▸ mem_map_of_mem (f := fun row ↦ row.2.key) hlater)
      refine ih hnodup.2 hlater ?_
      dsimp only
      split
      · exact (BTreeMap.get?_insert_of_ne _ hne _).trans hentry
      · exact hentry

/-! ### The plan of a projection -/

/-- What the two projections compute before they touch the view: the ids minted for the entering
keys, the next id after them, and the rendered rows. -/
structure Planned (view : InterestView) (context : ViewerContext)
    (minted : List (EntityKey × NetId)) (nextId : ℕ) (rows : List (NetId × EntityFact)) : Prop where
  valid : view.validate context = .ok ()
  mint : view.planMint (view.entering (visibleRows context)) = .ok (minted, nextId)
  rows : renderedRows (visibleRows context) (view.resolvedIds minted) = some rows

variable {context : ViewerContext} {minted : List (EntityKey × NetId)} {nextId : ℕ}
  {rows : List (NetId × EntityFact)}

theorem mem_entering {visible : BTreeMap EntityKey EntityFact} :
    key ∈ view.entering visible ↔ (visible.get? key).isSome ∧ view.netId key = none := by
  rw [entering, List.mem_filter, BTreeMap.mem_keys_iff, ← Option.isSome_iff_exists]
  simp [BTreeMap.contains, netId]

section

variable (hplan : view.Planned context minted nextId rows)
include hplan

theorem Planned.facts_le : context.facts.length ≤ maxVisibleEntities := by
  have hvalid := hplan.valid
  unfold validate at hvalid
  split_ifs at hvalid with hepoch hmany
  exact not_lt.mp (not_or.mp hmany).1

theorem Planned.mint_eq :
    InterestView.mint view.nextId (view.entering (visibleRows context)) = .ok (minted, nextId) := by
  have hmint := hplan.mint
  unfold planMint at hmint
  split_ifs at hmint
  exact hmint

theorem Planned.minted_keys : minted.map Prod.fst = view.entering (visibleRows context) :=
  (mint_spec hplan.mint_eq).1

theorem Planned.nodup_keys : (minted.map Prod.fst).Nodup :=
  hplan.minted_keys ▸ (BTreeMap.nodup_keys _).filter _

theorem Planned.nextId_eq : nextId = view.nextId + minted.length := by
  rw [(mint_spec hplan.mint_eq).2.1, ← hplan.minted_keys, length_map]

theorem Planned.ascending : minted.Pairwise fun first second ↦ first.2 < second.2 :=
  (mint_spec hplan.mint_eq).2.2.1

end

variable {pair : EntityKey × NetId}

section

variable (hplan : view.Planned context minted nextId rows)
include hplan

theorem Planned.bounds (hpair : pair ∈ minted) : view.nextId ≤ pair.2 ∧ (pair.2 : ℕ) < nextId :=
  (mint_spec hplan.mint_eq).2.2.2 pair hpair

theorem Planned.nodup_nets : (minted.map Prod.snd).Nodup :=
  List.pairwise_map.mpr (hplan.ascending.imp fun h ↦ ne_of_lt h)

theorem Planned.length_minted : minted.length ≤ maxVisibleEntities := by
  have hsubset : minted.length ≤ (visibleRows context).size := by
    rw [← length_map (f := Prod.fst), hplan.minted_keys, BTreeMap.size,
      ← length_map (f := Prod.fst)]
    exact List.length_filter_le _ _
  exact le_trans hsubset (le_trans (size_visibleRows_le context) hplan.facts_le)

theorem Planned.entering (hpair : pair ∈ minted) :
    ((visibleRows context).get? pair.1).isSome ∧ view.netId pair.1 = none :=
  mem_entering.mp (hplan.minted_keys ▸ mem_map_of_mem hpair)

theorem Planned.fresh (hview : view.Coherent) (hpair : pair ∈ minted) (key : EntityKey) :
    view.netId key ≠ some pair.2 := by
  intro hlive
  exact absurd (hview.minted _ _ hlive) (not_lt.mpr (hplan.bounds hpair).1)

theorem Planned.resolved (key : EntityKey) (net : NetId) :
    (view.resolvedIds minted).get? key = some net ↔
      view.netId key = some net ∨ (key, net) ∈ minted := by
  have hlive : (view.live.mapValues fun _ entry ↦ entry.net).get? key = view.netId key :=
    BTreeMap.get?_mapValues ..
  unfold resolvedIds
  constructor
  · intro hget
    rcases BTreeMap.mem_or_get?_of_foldl_insert _ _ hget with hmem | hold
    · exact Or.inr hmem
    · exact Or.inl (hlive ▸ hold)
  · rintro (hold | hmem)
    · rw [BTreeMap.get?_foldl_insert_of_notMem, hlive, hold]
      intro hkey
      obtain ⟨pair, hpair, rfl⟩ := mem_map.mp hkey
      rw [(hplan.entering hpair).2] at hold
      cases hold
    · exact BTreeMap.get?_foldl_insert_of_mem _ hplan.nodup_keys hmem

theorem Planned.resolved_injective (hview : view.Coherent) {first second : EntityKey}
    (hfirst : (view.resolvedIds minted).get? first = some net)
    (hsecond : (view.resolvedIds minted).get? second = some net) : first = second := by
  rw [hplan.resolved] at hfirst hsecond
  rcases hfirst with hfirst | hfirst <;> rcases hsecond with hsecond | hsecond
  · exact hview.inverse.netId_injective hfirst hsecond
  · exact absurd hfirst (hplan.fresh hview hsecond first)
  · exact absurd hsecond (hplan.fresh hview hfirst second)
  · have hsame := List.inj_on_of_nodup_map hplan.nodup_nets hfirst hsecond rfl
    exact congrArg Prod.fst hsame

theorem Planned.resolved_visible (hkey : ((visibleRows context).get? key).isSome) :
    ∃ net, (view.resolvedIds minted).get? key = some net := by
  cases hlive : view.netId key with
  | some net => exact ⟨net, (hplan.resolved key net).mpr (Or.inl hlive)⟩
  | none =>
    have hmem : key ∈ minted.map Prod.fst := hplan.minted_keys ▸ mem_entering.mpr ⟨hkey, hlive⟩
    obtain ⟨⟨found, net⟩, hpair, rfl⟩ := mem_map.mp hmem
    exact ⟨net, (hplan.resolved _ _).mpr (Or.inr hpair)⟩

theorem Planned.mem_rows (net : NetId) (fact : EntityFact) :
    (net, fact) ∈ rows ↔ (visibleRows context).get? fact.key = some fact ∧
      (view.resolvedIds minted).get? fact.key = some net := by
  obtain ⟨unsorted, hunsorted, rfl⟩ := Option.map_eq_some_iff.mp hplan.rows
  rw [(sortByNet_perm _ _).mem_iff, identifyRows_spec hunsorted]
  constructor
  · rintro ⟨key, hentry, hid⟩
    rw [BTreeMap.mem_entries_iff] at hentry
    obtain ⟨rfl, -⟩ := visibleRows_spec hentry
    exact ⟨hentry, hid⟩
  · rintro ⟨hentry, hid⟩
    exact ⟨fact.key, (BTreeMap.mem_entries_iff _).mpr hentry, hid⟩

theorem Planned.rows_keys : (rows.map fun row ↦ row.2.key).Perm (visibleRows context).keys := by
  obtain ⟨unsorted, hunsorted, rfl⟩ := Option.map_eq_some_iff.mp hplan.rows
  refine ((sortByNet_perm _ _).map _).trans (List.Perm.of_eq ?_)
  have hfacts := identifyRows_facts hunsorted
  have hmap : (unsorted.map fun row ↦ row.2.key) = (unsorted.map Prod.snd).map EntityFact.key := by
    rw [map_map]
    rfl
  rw [hmap, hfacts, map_map]
  refine List.map_congr_left fun entry hentry ↦ ?_
  exact (visibleRows_spec ((BTreeMap.mem_entries_iff _).mp hentry)).1

theorem Planned.nodup_rows_keys : (rows.map fun row ↦ row.2.key).Nodup :=
  hplan.rows_keys.nodup_iff.mpr (BTreeMap.nodup_keys _)

theorem Planned.length_rows : rows.length ≤ maxVisibleEntities := by
  have hlength := hplan.rows_keys.length_eq
  rw [length_map, BTreeMap.keys, length_map] at hlength
  exact hlength ▸ le_trans (size_visibleRows_le context) hplan.facts_le

theorem Planned.rows_ascending (hview : view.Coherent) :
    rows.Pairwise fun first second ↦ first.1 < second.1 := by
  have hnodup : (rows.map Prod.fst).Nodup := by
    refine List.Nodup.map_on (fun first hfirst second hsecond hsame ↦ ?_)
      (List.Nodup.of_map _ hplan.nodup_rows_keys)
    obtain ⟨hfact, hid⟩ := (hplan.mem_rows first.1 first.2).mp hfirst
    obtain ⟨hfact', hid'⟩ := (hplan.mem_rows second.1 second.2).mp hsecond
    have hkey := hplan.resolved_injective hview hid (hsame ▸ hid')
    rw [hkey, hfact', Option.some.injEq] at hfact
    exact Prod.ext hsame hfact.symm
  have hsorted : rows.Pairwise fun first second ↦ first.1 ≤ second.1 := by
    obtain ⟨unsorted, -, hrows⟩ := Option.map_eq_some_iff.mp hplan.rows
    exact hrows ▸ sortByNet_sorted Prod.fst unsorted
  exact (hsorted.and (List.pairwise_map.mp hnodup)).imp fun h ↦ lt_of_le_of_ne h.1 h.2

end

/-! ### What a projection leaves in the view -/

theorem mem_hidden {visible : BTreeMap EntityKey EntityFact} :
    (net, key) ∈ view.hidden visible ↔ view.netId key = some net ∧ visible.get? key = none := by
  simp only [hidden, mem_map, List.mem_filter, Prod.mk.injEq, Prod.exists, netId,
    Option.map_eq_some_iff, BTreeMap.mem_entries_iff]
  constructor
  · rintro ⟨found, entry, ⟨hlive, hvisible⟩, rfl, rfl⟩
    exact ⟨⟨entry, hlive, rfl⟩, by simpa [BTreeMap.contains] using hvisible⟩
  · rintro ⟨⟨entry, hlive, rfl⟩, hvisible⟩
    exact ⟨key, entry, ⟨hlive, by simp [BTreeMap.contains, hvisible]⟩, rfl, rfl⟩

/-- The hidden entries have distinct ids. -/
theorem Coherent.nodup_hidden (hview : view.Coherent) (visible : BTreeMap EntityKey EntityFact) :
    ((view.hidden visible).map Prod.fst).Nodup := by
  have hkeys : (view.hidden visible).Nodup := by
    refine List.Nodup.of_map Prod.snd ?_
    rw [hidden, map_map]
    exact view.live.nodup_keys.sublist (List.filter_sublist.map _)
  refine List.Nodup.map_on (fun first hfirst second hsecond hsame ↦ ?_) hkeys
  obtain ⟨hfirst, -⟩ := mem_hidden.mp hfirst
  obtain ⟨hsecond, -⟩ := mem_hidden.mp hsecond
  exact Prod.ext hsame (hview.inverse.netId_injective hfirst (hsame ▸ hsecond))

section

variable (hplan : view.Planned context minted nextId rows)
include hplan

theorem Planned.hidden_not_row (hview : view.Coherent) {fact : EntityFact}
    (hhidden : net ∈ (view.hidden (visibleRows context)).map Prod.fst) : (net, fact) ∉ rows := by
  intro hrow
  obtain ⟨⟨found, key⟩, hmem, rfl⟩ := mem_map.mp hhidden
  obtain ⟨hlive, hvisible⟩ := mem_hidden.mp hmem
  obtain ⟨hfact, hid⟩ := (hplan.mem_rows _ fact).mp hrow
  have hkey := hplan.resolved_injective hview hid ((hplan.resolved _ _).mpr (Or.inl hlive))
  cases hvisible.symm.trans (hkey ▸ hfact)

theorem Planned.row_of_not_hidden
    (hnet : net ∈ minted.map Prod.snd ∨ ∃ key, view.netId key = some net)
    (hshown : net ∉ (view.hidden (visibleRows context)).map Prod.fst) :
    ∃ fact, (net, fact) ∈ rows := by
  rcases hnet with hnew | ⟨key, hlive⟩
  · obtain ⟨pair, hpair, rfl⟩ := mem_map.mp hnew
    obtain ⟨fact, hfact⟩ := Option.isSome_iff_exists.mp (hplan.entering hpair).1
    obtain ⟨hkey, -⟩ := visibleRows_spec hfact
    refine ⟨fact, (hplan.mem_rows _ fact).mpr ⟨hkey ▸ hfact, ?_⟩⟩
    exact hkey ▸ (hplan.resolved _ _).mpr (Or.inr hpair)
  · cases hvisible : (visibleRows context).get? key with
    | none => exact absurd (mem_map.mpr ⟨_, mem_hidden.mpr ⟨hlive, hvisible⟩, rfl⟩) hshown
    | some fact =>
      obtain ⟨rfl, -⟩ := visibleRows_spec hvisible
      have hid := (hplan.resolved _ _).mpr (Or.inl hlive)
      exact ⟨fact, (hplan.mem_rows _ _).mpr ⟨hvisible, hid⟩⟩

theorem Planned.live_settled {removed : List (NetId × EntityKey)}
    (hremoved : removed.Perm (view.hidden (visibleRows context))) (key : EntityKey)
    (entry : LiveEntry) :
    (((view.forget removed).enter minted).recordHealth rows).live.get? key = some entry ↔
      ∃ fact, (entry.net, fact) ∈ rows ∧ fact.key = key ∧ entry.lastHealth = renderedHealth fact := by
  have hleft (net : NetId) : (net, key) ∈ removed ↔
      view.netId key = some net ∧ (visibleRows context).get? key = none := by
    rw [hremoved.mem_iff, mem_hidden]
  have hgone : key ∈ removed.map Prod.snd ↔
      (view.netId key).isSome ∧ (visibleRows context).get? key = none := by
    rw [mem_map, Option.isSome_iff_exists]
    constructor
    · rintro ⟨⟨net, found⟩, hmem, rfl⟩
      exact ⟨⟨net, ((hleft net).mp hmem).1⟩, ((hleft net).mp hmem).2⟩
    · rintro ⟨⟨net, hnet⟩, hvisible⟩
      exact ⟨(net, key), (hleft net).mpr ⟨hnet, hvisible⟩, rfl⟩
  cases hvisible : (visibleRows context).get? key with
  | none =>
    have hrows : ∀ row ∈ rows, row.2.key ≠ key := by
      rintro ⟨net, fact⟩ hrow rfl
      have hfact := ((hplan.mem_rows net fact).mp hrow).1
      rw [hvisible] at hfact
      cases hfact
    have hminted : key ∉ minted.map Prod.fst := by
      rw [hplan.minted_keys, mem_entering, hvisible]
      simp
    have hnone : (view.forget removed).live.get? key = none := by
      rw [forget_live]
      split_ifs with hmem
      · rfl
      · rw [hgone, not_and_or, Option.not_isSome_iff_eq_none] at hmem
        simpa [netId] using hmem.resolve_right (not_not.mpr hvisible)
    rw [recordHealth_live_of_notMem hrows, enter_live_of_notMem hminted, hnone]
    simp only [reduceCtorEq, false_iff, not_exists, not_and]
    exact fun fact hrow hkey ↦ absurd hkey (hrows _ hrow)
  | some fact =>
    obtain ⟨rfl, -⟩ := visibleRows_spec hvisible
    obtain ⟨net, hid⟩ := hplan.resolved_visible (Option.isSome_iff_exists.mpr ⟨_, hvisible⟩)
    have hrow : (net, fact) ∈ rows := (hplan.mem_rows net fact).mpr ⟨hvisible, hid⟩
    have hentered : ∃ health, ((view.forget removed).enter minted).live.get? fact.key =
        some ⟨net, health⟩ := by
      rcases (hplan.resolved _ _).mp hid with hlive | hmem
      · have hold : fact.key ∉ minted.map Prod.fst := by
          rw [hplan.minted_keys, mem_entering, hlive]
          simp
        have hkept : fact.key ∉ removed.map Prod.snd := by
          rw [hgone, hvisible]
          simp
        rw [enter_live_of_notMem hold, forget_live, if_neg hkept]
        obtain ⟨⟨found, health⟩, hfound, rfl⟩ := Option.map_eq_some_iff.mp hlive
        exact ⟨health, hfound⟩
      · exact ⟨none, enter_live_of_mem hplan.nodup_keys hmem⟩
    obtain ⟨health, hentered⟩ := hentered
    rw [recordHealth_live_of_mem hplan.nodup_rows_keys hrow hentered, Option.some.injEq]
    constructor
    · rintro rfl
      exact ⟨fact, hrow, rfl, rfl⟩
    · rintro ⟨other, hother, hkey, hhealth⟩
      obtain ⟨hfact, hid'⟩ := (hplan.mem_rows _ _).mp hother
      rw [hkey, hvisible, Option.some.injEq] at hfact
      subst hfact
      rw [hid, Option.some.injEq] at hid'
      obtain ⟨found, last⟩ := entry
      exact congrArg₂ LiveEntry.mk hid' hhealth.symm

/-- A projection keeps the invariant of the view. -/
theorem Planned.coherent_settled (hview : view.Coherent) {removed : List (NetId × EntityKey)}
    (hremoved : removed.Perm (view.hidden (visibleRows context))) {after : InterestView}
    (hlive : after.live = (((view.forget removed).enter minted).recordHealth rows).live)
    (hindex : after.index = (((view.forget removed).enter minted).recordHealth rows).index)
    (hnext : after.nextId = nextId) : after.Coherent := by
  have hid (key : EntityKey) : after.netId key = ((view.forget removed).enter minted).netId key := by
    rw [← recordHealth_netId ((view.forget removed).enter minted) rows, netId, netId, hlive]
  have hsubset {key : EntityKey} {net : NetId} (h : (view.forget removed).netId key = some net) :
      view.netId key = some net := by
    rw [netId, forget_live] at h
    split_ifs at h
    · cases h
    · exact h
  have hfresh : ∀ pair ∈ minted, (view.forget removed).netId pair.1 = none ∧
      (view.forget removed).index.get? pair.2 = none := by
    intro pair hpair
    refine ⟨Option.eq_none_iff_forall_ne_some.mpr fun net hnet ↦ ?_,
      Option.eq_none_iff_forall_ne_some.mpr fun key hkey ↦ ?_⟩
    · cases (hplan.entering hpair).2.symm.trans (hsubset hnet)
    · rw [hview.inverse.forget removed] at hkey
      exact hplan.fresh hview hpair key (hsubset hkey)
  have hinverse := (hview.inverse.forget removed).enter hplan.nodup_keys hplan.nodup_nets hfresh
  refine ⟨fun net key ↦ ?_, fun net key hnet ↦ ?_, ?_⟩
  · rw [hindex, recordHealth_index, hid]
    exact hinverse net key
  · obtain ⟨entry, hentry, rfl⟩ := Option.map_eq_some_iff.mp hnet
    rw [hlive, hplan.live_settled hremoved] at hentry
    obtain ⟨fact, hrow, -, -⟩ := hentry
    rw [hnext]
    rcases (hplan.resolved _ _).mp ((hplan.mem_rows _ _).mp hrow).2 with hold | hmem
    · exact lt_of_lt_of_le (hview.minted _ _ hold) (hplan.nextId_eq ▸ Nat.le_add_right _ _)
    · exact (hplan.bounds hmem).2
  · rw [hnext, hplan.nextId_eq]
    exact Nat.add_pos_left hview.positive _

end

end InterestView

end Crpg.Net
