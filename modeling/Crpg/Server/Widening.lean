import Crpg.Server.IdentityMap

/-!
# Grants that do not narrow

`isNarrowing` compares flags, lists and globals. When it finds nothing removed, everything the old
grants disclosed the new ones do (`Within`), and the view of the map planned for the new grants
shows every fact about a live entity that the old view showed (`PeerView.Covers`): nothing has to be
taken back.
-/

set_option autoImplicit false

namespace Crpg.Server

open Crpg.Core Crpg.Lib Crpg.Rules Crpg.Sim Crpg.Net
open Option (any_eq_true bind_eq_some_iff)

/-! ### Grants -/

/-- What may be granted of one entity. -/
def EntityDisclosure.fields : List (EntityDisclosure → Bool) :=
  [EntityDisclosure.present, EntityDisclosure.health, EntityDisclosure.spawn,
    EntityDisclosure.despawn, EntityDisclosure.died, EntityDisclosure.actionActor,
    EntityDisclosure.actionTarget, EntityDisclosure.actionOutcome, EntityDisclosure.actionDamage,
    EntityDisclosure.turnStart]

/-- Everything one grant discloses another does. -/
structure DisclosureGrants.Within (old new : DisclosureGrants) : Prop where
  entities : ∀ entry ∈ old.entities, ∀ flag ∈ EntityDisclosure.fields, flag entry = true →
    (lookup new entry.entity).any flag = true
  abilities : ∀ id, sortedContains old.abilities id = true →
    sortedContains new.abilities id = true
  encounters : ∀ id, sortedContains old.encounters id = true →
    sortedContains new.encounters id = true
  turnRound : old.turnRound = true → new.turnRound = true
  encounterEnd : old.encounterEnd = true → new.encounterEnd = true
  turnState : old.turnState = true → new.turnState = true

theorem disclosureFlags_eq (entry : EntityDisclosure) :
    disclosureFlags entry = EntityDisclosure.fields.map fun flag ↦ flag entry :=
  rfl

theorem mem_of_lookup {grants : DisclosureGrants} {entity : EntityId} {entry : EntityDisclosure}
    (hlookup : lookup grants entity = some entry) :
    entry ∈ grants.entities ∧ entry.entity = entity := by
  unfold lookup at hlookup
  obtain ⟨index, hindex, hget⟩ := bind_eq_some_iff.mp hlookup
  obtain ⟨found, hfound, hkey⟩ := exists_of_binarySearch hindex
  rw [Option.some.inj (hget.symm.trans hfound)]
  exact ⟨List.mem_of_getElem? hfound, hkey⟩

theorem mem_of_sortedContains {α : Type*} [LinearOrder α] {items : List α} {item : α}
    (hcontains : sortedContains items item = true) : item ∈ items := by
  obtain ⟨index, hindex⟩ := Option.isSome_iff_exists.mp hcontains
  obtain ⟨found, hfound, hkey⟩ := exists_of_binarySearch hindex
  have hmem := List.mem_of_getElem? hfound
  rw [show found = item from hkey] at hmem
  exact hmem

theorem elim_disclosureFlags (found : Option EntityDisclosure) :
    found.elim (List.replicate 10 false) disclosureFlags =
      EntityDisclosure.fields.map fun flag ↦ found.any flag := by
  cases found with
  | none => rfl
  | some entry => rfl

theorem within_of_not_narrowing {old new : DisclosureGrants}
    (hwidens : isNarrowing old new = false) : old.Within new := by
  unfold isNarrowing at hwidens
  simp only [Bool.or_eq_false_iff, List.any_eq_false] at hwidens
  obtain ⟨⟨⟨⟨⟨hentities, habilities⟩, hencounters⟩, hround⟩, hend⟩, hstate⟩ := hwidens
  have hbool : ∀ {was now : Bool}, (was && !now) = false → was = true → now = true := by
    intro was now hkept hwas
    rw [hwas] at hkept
    simpa using hkept
  refine ⟨fun entry hentry flag hflag hset ↦ ?_, fun id hid ↦ ?_, fun id hid ↦ ?_, hbool hround,
    hbool hend, hbool hstate⟩
  · have hkept := hentities entry hentry
    rw [elim_disclosureFlags, disclosureFlags_eq, List.zip_map', List.any_map] at hkept
    simp only [List.any_eq_true, not_exists, not_and] at hkept
    have hflagKept := hkept flag hflag
    simp only [Function.comp_apply, Bool.and_eq_true, Bool.not_eq_true', not_and,
      Bool.not_eq_false] at hflagKept
    exact hflagKept hset
  · have hkept := habilities id (mem_of_sortedContains hid)
    simpa using hkept
  · have hkept := hencounters id (mem_of_sortedContains hid)
    simpa using hkept

theorem DisclosureGrants.Within.lookup {old new : DisclosureGrants} (hwithin : old.Within new)
    {entity : EntityId} {flag : EntityDisclosure → Bool} (hflag : flag ∈ EntityDisclosure.fields)
    (hset : (lookup old entity).any flag = true) : (lookup new entity).any flag = true := by
  obtain ⟨entry, hentry, hentrySet⟩ := (any_eq_true _ _).mp hset
  obtain ⟨hmem, rfl⟩ := mem_of_lookup hentry
  exact hwithin.entities entry hmem flag hflag hentrySet

/-! ### Views -/

/-- A view shows every fact about live entities that another shows. -/
structure PeerView.Covers (world : World) (old new : PeerView) : Prop where
  names : ∀ entity net, world.contains entity = true → old.map.get? entity = some net →
    new.map.get? entity = some net
  netIf : ∀ entity flag net, flag ∈ (fun _ ↦ true) :: EntityDisclosure.fields →
    world.contains entity = true → old.netIf entity flag = some net →
      new.netIf entity flag = some net
  discloses : ∀ entity, ∀ flag ∈ EntityDisclosure.fields, old.discloses entity flag = true →
    new.discloses entity flag = true
  both : ∀ actor target, ∀ flag ∈ EntityDisclosure.fields, old.both actor target flag = true →
    new.both actor target flag = true
  health : ∀ entity found, world.contains entity = true → old.health world entity = some found →
    new.health world entity = some found
  turn : ∀ turn, old.turn world = some turn → ∃ shown, new.turn world = some shown ∧
    shown.round = turn.round ∧ ∀ net, turn.active = some net →
      (∀ combat active, world.combat = some combat → combat.active = some active →
        world.contains active = true) → shown.active = some net

theorem get?_planMap_of_not_narrowing {session : Session} {grants : DisclosureGrants}
    {planned : EntityMap × ℕ} {world : World} (hsession : session.Identified)
    (hplan : planMap session.map session.nextNet grants world = .ok planned)
    (hwithin : session.grants.Within grants) {entity : EntityId} {net : NetId}
    (hlive : world.contains entity = true) (hnet : session.map.get? entity = some net) :
    planned.1.get? entity = some net := by
  have hplanned := planned_planMap (fun _ _ _ hone htwo ↦ hsession.injective hone htwo)
    hsession.below hplan
  obtain ⟨entry, hentry, rfl, hpresent⟩ := hsession.granted entity net hnet
  obtain ⟨after, hafter, hset⟩ := (any_eq_true _ _).mp
    (hwithin.entities entry hentry _ List.mem_cons_self hpresent)
  obtain ⟨hmem, hid⟩ := mem_of_lookup hafter
  rw [← hid] at hlive hnet ⊢
  obtain ⟨found, hfound⟩ := exists_planMap hplan hmem hset hlive
  rcases hplanned.issued after.entity found hfound with hkept | ⟨hnone, -, -⟩
  · rw [hfound, ← hkept, hnet]
  · exact absurd (hnone.symm.trans hnet) (Option.some_ne_none _).symm

theorem covers_of_not_narrowing {session : Session} {grants : DisclosureGrants}
    {planned : EntityMap × ℕ} {world : World} (hsession : session.Identified)
    (hplan : planMap session.map session.nextNet grants world = .ok planned)
    (hwidens : isNarrowing session.grants grants = false) :
    PeerView.Covers world session.view ⟨grants, planned.1⟩ := by
  have hwithin := within_of_not_narrowing hwidens
  have hnames : ∀ entity net, world.contains entity = true →
      session.map.get? entity = some net → planned.1.get? entity = some net :=
    fun entity net hlive hnet ↦ get?_planMap_of_not_narrowing hsession hplan hwithin hlive hnet
  have hpresent : EntityDisclosure.present ∈ EntityDisclosure.fields := List.mem_cons_self
  -- A present entity with a flag is one with both.
  have hboth : ∀ entity flag, flag ∈ (fun _ ↦ true) :: EntityDisclosure.fields →
      ((lookup session.grants entity).any fun grant ↦ grant.present && flag grant) = true →
      ((lookup grants entity).any fun grant ↦ grant.present && flag grant) = true := by
    intro entity flag hflag hset
    obtain ⟨entry, hentry, hset⟩ := (any_eq_true _ _).mp hset
    rw [Bool.and_eq_true] at hset
    have hafterPresent := hwithin.lookup hpresent
      ((any_eq_true _ _).mpr ⟨entry, hentry, hset.1⟩)
    obtain ⟨after, hafter, hshown⟩ := (any_eq_true _ _).mp hafterPresent
    refine (any_eq_true _ _).mpr ⟨after, hafter, ?_⟩
    rw [Bool.and_eq_true]
    refine ⟨hshown, ?_⟩
    rcases List.mem_cons.mp hflag with rfl | hflag
    · rfl
    · have hafterFlag := hwithin.lookup hflag
        ((any_eq_true _ _).mpr ⟨entry, hentry, hset.2⟩)
      rw [hafter] at hafterFlag
      exact hafterFlag
  have hnetIf : ∀ entity flag net, flag ∈ (fun _ ↦ true) :: EntityDisclosure.fields →
      world.contains entity = true → session.view.netIf entity flag = some net →
      PeerView.netIf ⟨grants, planned.1⟩ entity flag = some net := by
    intro entity flag net hflag hlive hnet
    unfold PeerView.netIf at hnet ⊢
    obtain ⟨entry, hentry, hshown⟩ := bind_eq_some_iff.mp hnet
    split_ifs at hshown with hset
    obtain ⟨after, hafter, hafterSet⟩ := (any_eq_true _ _).mp
      (hboth entity flag hflag ((any_eq_true _ _).mpr ⟨entry, hentry, hset⟩))
    rw [show lookup grants entity = some after from hafter, Option.bind_some, if_pos hafterSet]
    exact hnames entity net hlive hshown
  refine ⟨hnames, hnetIf, fun entity flag hflag ↦ hboth entity flag (List.mem_cons_of_mem _ hflag),
    fun actor target flag hflag hset ↦ ?_, fun entity found hlive hfound ↦ ?_,
    fun turn hturn ↦ ?_⟩
  · unfold PeerView.both PeerView.grant at hset ⊢
    rw [Bool.and_eq_true] at hset ⊢
    exact ⟨hwithin.lookup hflag hset.1, hwithin.lookup hflag hset.2⟩
  · unfold PeerView.health at hfound ⊢
    obtain ⟨net, hnet, hrest⟩ := bind_eq_some_iff.mp hfound
    rw [hnetIf entity _ net (by simp [EntityDisclosure.fields]) hlive hnet]
    exact hrest
  · unfold PeerView.turn at hturn ⊢
    split_ifs at hturn with hstate
    rw [if_pos (hwithin.turnState hstate)]
    obtain ⟨combat, hcombat, rfl⟩ := Option.map_eq_some_iff.mp hturn
    refine ⟨_, Option.map_eq_some_iff.mpr ⟨combat, hcombat, rfl⟩, rfl, fun net hnet halive ↦ ?_⟩
    obtain ⟨active, hactive, hmapped⟩ := bind_eq_some_iff.mp hnet
    exact bind_eq_some_iff.mpr ⟨active, hactive,
      hnames active net (halive combat active hcombat hactive) hmapped⟩

end Crpg.Server
