import Crpg.Server.Host

/-!
# The identity map of a session

A session names entities by replica ids. `Identified` says that the map and its inverse agree and
that every id in it was issued; `Follows` says that a later map issued its new ids after an earlier
one. Planning a map for grants, installing it and everything `setGrants` does keep both, so an id
names one entity for as long as the session lasts. Grants that do not narrow disclose what the old
ones did.
-/

set_option autoImplicit false

namespace Crpg.Server

open Crpg.Core Crpg.Lib Crpg.Rules Crpg.Sim Crpg.Net

/-! ### Planning a map -/

/-- A map planned from another: its ids are kept or newly issued, and it names live entities that
are granted. -/
structure Planned (current : EntityMap) (nextNet : ℕ) (entities : List EntityDisclosure)
    (world : World) (planned : EntityMap × ℕ) : Prop where
  le : nextNet ≤ planned.2
  issued : ∀ entity net, planned.1.get? entity = some net →
    current.get? entity = some net ∨
      (current.get? entity = none ∧ nextNet ≤ (net : ℕ) ∧ (net : ℕ) < planned.2)
  injective : ∀ first second net, planned.1.get? first = some net →
    planned.1.get? second = some net → first = second
  live : ∀ entity net, planned.1.get? entity = some net → world.contains entity = true
  granted : ∀ entity net, planned.1.get? entity = some net →
    ∃ entry ∈ entities, entry.entity = entity ∧ entry.present = true

section Plan

variable {current : EntityMap} {nextNet : ℕ} {world : World} {entities : List EntityDisclosure}

theorem Planned.insert {state : EntityMap × ℕ} {entry : EntityDisclosure} {net : NetId}
    {next : ℕ} (hplanned : Planned current nextNet entities world state)
    (hentry : entry ∈ entities) (hpresent : entry.present = true)
    (hlive : world.contains entry.entity = true) (hle : state.2 ≤ next)
    (hissued : current.get? entry.entity = some net ∨
      (current.get? entry.entity = none ∧ nextNet ≤ (net : ℕ) ∧ (net : ℕ) < next))
    (hfresh : ∀ other, state.1.get? other = some net → other = entry.entity) :
    Planned current nextNet entities world (state.1.insert entry.entity net, next) := by
  have hcases : ∀ entity found, (state.1.insert entry.entity net).get? entity = some found →
      (entity = entry.entity ∧ found = net) ∨
        (entity ≠ entry.entity ∧ state.1.get? entity = some found) := by
    intro entity found hfound
    rw [BTreeMap.get?_insert] at hfound
    split_ifs at hfound with hsame
    · exact .inl ⟨hsame, (Option.some.inj hfound).symm⟩
    · exact .inr ⟨hsame, hfound⟩
  refine ⟨hplanned.le.trans hle, fun entity found hfound ↦ ?_, fun first second found hfirst
    hsecond ↦ ?_, fun entity found hfound ↦ ?_, fun entity found hfound ↦ ?_⟩
  · rcases hcases entity found hfound with ⟨rfl, rfl⟩ | ⟨-, hbefore⟩
    · exact hissued
    · rcases hplanned.issued entity found hbefore with hkept | ⟨hnew, hge, hlt⟩
      · exact .inl hkept
      · exact .inr ⟨hnew, hge, hlt.trans_le hle⟩
  · rcases hcases first found hfirst with ⟨rfl, rfl⟩ | ⟨-, hfirstBefore⟩
    · rcases hcases second found hsecond with ⟨rfl, -⟩ | ⟨-, hsecondBefore⟩
      · rfl
      · exact (hfresh second hsecondBefore).symm
    · rcases hcases second found hsecond with ⟨rfl, rfl⟩ | ⟨-, hsecondBefore⟩
      · exact hfresh first hfirstBefore
      · exact hplanned.injective first second found hfirstBefore hsecondBefore
  · rcases hcases entity found hfound with ⟨rfl, -⟩ | ⟨-, hbefore⟩
    · exact hlive
    · exact hplanned.live entity found hbefore
  · rcases hcases entity found hfound with ⟨rfl, -⟩ | ⟨-, hbefore⟩
    · exact ⟨entry, hentry, rfl, hpresent⟩
    · exact hplanned.granted entity found hbefore

/-- One grant: skipped, kept under its id, or given the next one. -/
theorem planEntry_cases {state next : EntityMap × ℕ} {entry : EntityDisclosure}
    (hplan : planEntry current world state entry = .ok next) :
    (next = state ∧ ¬(entry.present = true ∧ world.contains entry.entity = true)) ∨
    (entry.present = true ∧ world.contains entry.entity = true ∧
      ((∃ net, current.get? entry.entity = some net ∧
          next = (state.1.insert entry.entity net, state.2)) ∨
        ∃ net : NetId, current.get? entry.entity = none ∧ (net : ℕ) = state.2 ∧
          next = (state.1.insert entry.entity net, state.2 + 1))) := by
  unfold planEntry at hplan
  by_cases hskip : entry.present = false ∨ world.contains entry.entity = false
  · rw [if_pos hskip] at hplan
    refine .inl ⟨(Result.ok.inj hplan).symm, fun hgranted ↦ ?_⟩
    rcases hskip with hskip | hskip
    · exact Bool.false_ne_true (hskip.symm.trans hgranted.1)
    · exact Bool.false_ne_true (hskip.symm.trans hgranted.2)
  · rw [if_neg hskip] at hplan
    rw [not_or, Bool.not_eq_false, Bool.not_eq_false] at hskip
    refine .inr ⟨hskip.1, hskip.2, ?_⟩
    cases hcurrent : current.get? entry.entity with
    | some net =>
      rw [hcurrent] at hplan
      exact .inl ⟨net, rfl, (Result.ok.inj hplan).symm⟩
    | none =>
      rw [hcurrent] at hplan
      simp only [Result.bind_ok_iff, Result.pure_ok_iff] at hplan
      obtain ⟨-, -, net, hnet, hnext⟩ := hplan
      refine .inr ⟨net, rfl, ?_, hnext.symm⟩
      unfold nonzero at hnet
      split_ifs at hnet with hpositive
      · rw [← Result.ok.inj hnet]
        rfl
      · exact nomatch hnet

/-- The map of grants is planned from the current one. Assumes: a current map that names one entity
by an id, with ids already issued. -/
theorem planned_planMap {grants : DisclosureGrants} {planned : EntityMap × ℕ}
    (hinjective : ∀ first second net, current.get? first = some net →
      current.get? second = some net → first = second)
    (hbelow : ∀ entity net, current.get? entity = some net → (net : ℕ) < nextNet)
    (hplan : planMap current nextNet grants world = .ok planned) :
    Planned current nextNet grants.entities world planned := by
  refine Result.foldlM_preserves (motive := Planned current nextNet grants.entities world) ?_ ?_
    hplan
  · intro entry hentry state next hstate hnext
    rcases planEntry_cases hnext with ⟨rfl, -⟩ |
      ⟨hpresent, hlive, ⟨net, hkept, rfl⟩ | ⟨net, hnone, hnet, rfl⟩⟩
    · exact hstate
    · refine hstate.insert hentry hpresent hlive le_rfl (.inl hkept) fun other hother ↦ ?_
      rcases hstate.issued other net hother with hsame | ⟨-, hge, -⟩
      · exact hinjective other entry.entity net hsame hkept
      · exact absurd hge (not_le.mpr (hbelow entry.entity net hkept))
    · refine hstate.insert hentry hpresent hlive (Nat.le_succ _)
        (.inr ⟨hnone, hnet ▸ hstate.le, hnet ▸ Nat.lt_succ_self _⟩) fun other hother ↦ ?_
      rcases hstate.issued other net hother with hsame | ⟨-, -, hlt⟩
      · have hlt := (hbelow other net hsame).trans_le hstate.le
        rw [hnet] at hlt
        exact absurd hlt (lt_irrefl _)
      · rw [hnet] at hlt
        exact absurd hlt (lt_irrefl _)
  · exact ⟨le_rfl, nofun, nofun, nofun, nofun⟩

theorem exists_planMap {grants : DisclosureGrants} {planned : EntityMap × ℕ}
    (hplan : planMap current nextNet grants world = .ok planned) {entry : EntityDisclosure}
    (hentry : entry ∈ grants.entities) (hpresent : entry.present = true)
    (hlive : world.contains entry.entity = true) :
    ∃ net, planned.1.get? entry.entity = some net := by
  have hstep : ∀ {state next : EntityMap × ℕ} {other : EntityDisclosure} {entity : EntityId},
      planEntry current world state other = .ok next → (∃ net, state.1.get? entity = some net) →
      ∃ net, next.1.get? entity = some net := by
    intro state next other entity hnext hfound
    obtain ⟨net, hnet⟩ := hfound
    rcases planEntry_cases hnext with ⟨rfl, -⟩ | ⟨-, -, ⟨kept, -, rfl⟩ | ⟨fresh, -, -, rfl⟩⟩
    · exact ⟨net, hnet⟩
    · simp only [BTreeMap.get?_insert]
      split_ifs
      · exact ⟨kept, rfl⟩
      · exact ⟨net, hnet⟩
    · simp only [BTreeMap.get?_insert]
      split_ifs
      · exact ⟨fresh, rfl⟩
      · exact ⟨net, hnet⟩
  unfold planMap at hplan
  generalize hstart : ((BTreeMap.empty, nextNet) : EntityMap × ℕ) = start at hplan
  clear hstart
  generalize hitems : grants.entities = items at hentry hplan
  clear hitems
  induction items generalizing start with
  | nil => exact absurd hentry List.not_mem_nil
  | cons head rest ih =>
    obtain ⟨next, hnext, hrest⟩ := Result.bind_eq_ok_iff.mp hplan
    rcases List.mem_cons.mp hentry with rfl | hentry
    · have hfound : ∃ net, next.1.get? entry.entity = some net := by
        rcases planEntry_cases hnext with ⟨-, hnot⟩ | ⟨-, -, ⟨kept, -, rfl⟩ | ⟨fresh, -, -, rfl⟩⟩
        · exact absurd ⟨hpresent, hlive⟩ hnot
        · exact ⟨kept, BTreeMap.get?_insert_self ..⟩
        · exact ⟨fresh, BTreeMap.get?_insert_self ..⟩
      exact Result.foldlM_preserves (motive := fun state : EntityMap × ℕ ↦
        ∃ net, state.1.get? entry.entity = some net)
        (fun other _ state next hstate hnext ↦ hstep hnext hstate) hfound hrest
    · exact ih next hentry hrest

end Plan

/-! ### Sessions -/

/-- The map and its inverse agree, name entities the session was granted, and hold issued ids. -/
structure Session.Identified (session : Session) : Prop where
  reverse : ∀ net entity, session.reverse.get? net = some entity ↔
    session.map.get? entity = some net
  below : ∀ entity net, session.map.get? entity = some net → (net : ℕ) < session.nextNet
  granted : ∀ entity net, session.map.get? entity = some net →
    ∃ entry ∈ session.grants.entities, entry.entity = entity ∧ entry.present = true

/-- A later session's ids are ids of an earlier one or were issued after it. -/
structure Session.Follows (before after : Session) : Prop where
  le : before.nextNet ≤ after.nextNet
  issued : ∀ entity net, after.map.get? entity = some net →
    before.map.get? entity = some net ∨ before.nextNet ≤ (net : ℕ)

/-- Two sessions agree on grants and identities. -/
structure Session.SameNames (before after : Session) : Prop where
  grants : after.grants = before.grants
  map : after.map = before.map
  reverse : after.reverse = before.reverse
  nextNet : after.nextNet = before.nextNet

namespace Session

variable {first second third : Session}

theorem Identified.injective (hsession : first.Identified) {one two : EntityId} {net : NetId}
    (hone : first.map.get? one = some net) (htwo : first.map.get? two = some net) : one = two :=
  Option.some.inj (((hsession.reverse net one).mpr hone).symm.trans
    ((hsession.reverse net two).mpr htwo))

theorem Follows.refl (session : Session) : Follows session session :=
  ⟨le_rfl, fun _ _ hnet ↦ .inl hnet⟩

theorem Follows.trans (hfirst : Follows first second) (hsecond : Follows second third) :
    Follows first third := by
  refine ⟨hfirst.le.trans hsecond.le, fun entity net hnet ↦ ?_⟩
  rcases hsecond.issued entity net hnet with hkept | hge
  · exact hfirst.issued entity net hkept
  · exact .inr (hfirst.le.trans hge)

theorem Follows.entity_eq (hfollows : Follows first second) (hfirst : first.Identified)
    {one two : EntityId} {net : NetId} (hone : first.map.get? one = some net)
    (htwo : second.map.get? two = some net) : one = two := by
  rcases hfollows.issued two net htwo with hkept | hge
  · exact hfirst.injective hone hkept
  · exact absurd (hfirst.below one net hone) (not_lt.mpr hge)

theorem SameNames.refl (session : Session) : SameNames session session := ⟨rfl, rfl, rfl, rfl⟩

theorem SameNames.trans (hfirst : SameNames first second) (hsecond : SameNames second third) :
    SameNames first third :=
  ⟨hsecond.grants.trans hfirst.grants, hsecond.map.trans hfirst.map,
    hsecond.reverse.trans hfirst.reverse, hsecond.nextNet.trans hfirst.nextNet⟩

theorem SameNames.identified (hsame : SameNames first second) (hfirst : first.Identified) :
    second.Identified := by
  refine ⟨?_, ?_, ?_⟩
  · rw [hsame.reverse, hsame.map]
    exact hfirst.reverse
  · rw [hsame.map, hsame.nextNet]
    exact hfirst.below
  · rw [hsame.map, hsame.grants]
    exact hfirst.granted

theorem SameNames.follows (hsame : SameNames first second) : Follows first second := by
  refine ⟨hsame.nextNet.ge, fun entity net hnet ↦ .inl ?_⟩
  rw [← hsame.map]
  exact hnet

theorem get?_reverse_installMap (session : Session) {map : EntityMap} (nextNet : ℕ)
    (hinjective : ∀ first second net, map.get? first = some net →
      map.get? second = some net → first = second) (net : NetId) (entity : EntityId) :
    (session.installMap map nextNet).reverse.get? net = some entity ↔
      map.get? entity = some net := by
  have hnodup : ((map.entries.map fun entry ↦ (entry.2, entry.1)).map Prod.fst).Nodup := by
    rw [List.map_map]
    refine List.Nodup.map_on ?_ (map.ascending.imp fun hlt heq ↦ ?_)
    · intro first hfirst second hsecond hnet
      have hnet' : first.2 = second.2 := hnet
      have hone := map.mem_entries_iff.mp (show (first.1, first.2) ∈ map.entries from hfirst)
      have htwo := map.mem_entries_iff.mp (show (second.1, second.2) ∈ map.entries from hsecond)
      rw [hnet'] at hone
      exact Prod.ext (hinjective first.1 second.1 second.2 hone htwo) hnet'
    · rw [heq] at hlt
      exact lt_irrefl _ hlt
  show (BTreeMap.ofList (map.entries.map fun entry ↦ (entry.2, entry.1))).get? net =
    some entity ↔ _
  constructor
  · intro hget
    obtain ⟨entry, hentry, hpair⟩ := List.mem_map.mp (BTreeMap.mem_of_get?_ofList hget)
    rw [← (Prod.mk.inj hpair).1, ← (Prod.mk.inj hpair).2]
    exact map.mem_entries_iff.mp hentry
  · intro hget
    exact BTreeMap.get?_foldl_insert_of_mem _ hnodup
      (List.mem_map.mpr ⟨(entity, net), map.mem_entries_iff.mpr hget, rfl⟩)

structure Installed (before after : Session) (grants : DisclosureGrants)
    (planned : EntityMap × ℕ) : Prop where
  grants : after.grants = grants
  map : after.map = planned.1
  reverse : after.reverse = (before.installMap planned.1 planned.2).reverse
  nextNet : after.nextNet = planned.2

theorem Installed.identified {before after : Session} {grants : DisclosureGrants}
    {planned : EntityMap × ℕ} {world : World} (hbefore : before.Identified)
    (hplan : planMap before.map before.nextNet grants world = .ok planned)
    (hinstalled : Installed before after grants planned) :
    after.Identified ∧ before.Follows after := by
  have hplanned := planned_planMap (fun _ _ _ hone htwo ↦ hbefore.injective hone htwo)
    hbefore.below hplan
  refine ⟨⟨fun net entity ↦ ?_, fun entity net hnet ↦ ?_, fun entity net hnet ↦ ?_⟩, ⟨?_,
    fun entity net hnet ↦ ?_⟩⟩
  · rw [hinstalled.reverse, hinstalled.map]
    exact before.get?_reverse_installMap planned.2 hplanned.injective net entity
  · rw [hinstalled.map] at hnet
    rw [hinstalled.nextNet]
    rcases hplanned.issued entity net hnet with hkept | ⟨-, -, hlt⟩
    · exact (hbefore.below entity net hkept).trans_le hplanned.le
    · exact hlt
  · rw [hinstalled.map] at hnet
    rw [hinstalled.grants]
    exact hplanned.granted entity net hnet
  · rw [hinstalled.nextNet]
    exact hplanned.le
  · rw [hinstalled.map] at hnet
    rcases hplanned.issued entity net hnet with hkept | ⟨-, hge, -⟩
    · exact .inl hkept
    · exact .inr hge

end Session

end Crpg.Server
