import Crpg.Net.Transport

/-!
# The accounting of the simulated transport

The staging counters shadow what a peer holds: its pending datagrams and its counted ready ones. The
pump takes a lost datagram out of the queue and leaves it in the counters, so the counters cover
what is held (`Covered`), and they are exact (`Accounted`) as long as no tick loses a datagram. A
tick that loses one of a peer's datagrams breaks the equation at once, so the accounting is exact in
every state of a run exactly when no tick of the run loses a datagram (`accounted_iff_lossless`).
-/

set_option autoImplicit false

namespace Crpg.Net

open Crpg.Core Crpg.Lib

/-! ### What a peer holds -/

def countedOf (ready : List ReadyDatagram) : List ReadyDatagram :=
  ready.filter ReadyDatagram.counted

def countedBytes (ready : List ReadyDatagram) : ℕ :=
  ((countedOf ready).map fun datagram ↦ datagram.bytes.length).sum

theorem countedOf_append (first second : List ReadyDatagram) :
    countedOf (first ++ second) = countedOf first ++ countedOf second :=
  List.filter_append ..

theorem countedBytes_append (first second : List ReadyDatagram) :
    countedBytes (first ++ second) = countedBytes first + countedBytes second := by
  rw [countedBytes, countedOf_append, List.map_append, List.sum_append]
  rfl

theorem length_countedOf_perm {first second : List ReadyDatagram} (hperm : first.Perm second) :
    (countedOf first).length = (countedOf second).length :=
  (hperm.filter _).length_eq

theorem countedBytes_perm {first second : List ReadyDatagram} (hperm : first.Perm second) :
    countedBytes first = countedBytes second :=
  ((hperm.filter _).map _).sum_eq

/-- The bytes of staged datagrams. -/
def bytesOf (pending : List (List UInt8)) : ℕ := (pending.map List.length).sum

namespace PeerEntry

/-- The pending and the counted ready datagrams. -/
def heldFrames (entry : PeerEntry) : ℕ := entry.pending.length + (countedOf entry.ready).length

/-- The bytes of the pending and the counted ready datagrams. -/
def heldBytes (entry : PeerEntry) : ℕ := bytesOf entry.pending + countedBytes entry.ready

structure Covered (entry : PeerEntry) : Prop where
  frames : entry.heldFrames ≤ entry.stagedFrames
  bytes : entry.heldBytes ≤ entry.stagedBytes

/-- The counters of a peer are what it holds. -/
structure Exact (entry : PeerEntry) : Prop where
  frames : entry.stagedFrames = entry.heldFrames
  bytes : entry.stagedBytes = entry.heldBytes

variable {entry : PeerEntry}

theorem Exact.covered (hexact : Exact entry) : Covered entry :=
  ⟨hexact.frames.ge, hexact.bytes.ge⟩

/-- A property of a peer that staging and receiving keep. Assumes of a receive: the counters cover
the datagram. -/
structure Closed (property : PeerEntry → Prop) : Prop where
  fresh : ∀ frames bytes, property ⟨[], [], 0, 0, frames, bytes, 0⟩
  charge : ∀ entry frames bytes, property entry →
    property { entry with frameBudget := frames, byteBudget := bytes }
  stage : ∀ entry datagram, property entry → property { entry with
    stagedFrames := entry.stagedFrames + 1
    stagedBytes := entry.stagedBytes + datagram.length
    pending := entry.pending ++ [datagram] }
  receive : ∀ entry bytes rest, property entry → entry.ready = ⟨bytes, true⟩ :: rest →
    property { entry with
      ready := rest
      stagedFrames := entry.stagedFrames - 1
      stagedBytes := entry.stagedBytes - bytes.length }
  skip : ∀ entry bytes rest, property entry → entry.ready = ⟨bytes, false⟩ :: rest →
    property { entry with ready := rest }
  covers : ∀ entry, property entry → Covered entry

theorem held_stage (entry : PeerEntry) (datagram : List UInt8) :
    ({ entry with pending := entry.pending ++ [datagram] } : PeerEntry).heldFrames =
        entry.heldFrames + 1 ∧
      ({ entry with pending := entry.pending ++ [datagram] } : PeerEntry).heldBytes =
        entry.heldBytes + datagram.length := by
  simp only [heldFrames, heldBytes, bytesOf, List.length_append, List.map_append, List.sum_append,
    List.length_singleton, List.map_singleton, List.sum_singleton]
  exact ⟨by omega, by omega⟩

theorem held_receive {bytes : List UInt8} {rest : List ReadyDatagram}
    (hready : entry.ready = ⟨bytes, true⟩ :: rest) :
    entry.heldFrames = ({ entry with ready := rest } : PeerEntry).heldFrames + 1 ∧
      entry.heldBytes = ({ entry with ready := rest } : PeerEntry).heldBytes + bytes.length := by
  simp only [heldFrames, heldBytes, countedBytes, countedOf, hready, List.filter_cons, if_true,
    List.length_cons, List.map_cons, List.sum_cons]
  exact ⟨by omega, by omega⟩

/-- What a peer holds before it receives a duplicate. -/
theorem held_skip {bytes : List UInt8} {rest : List ReadyDatagram}
    (hready : entry.ready = ⟨bytes, false⟩ :: rest) :
    entry.heldFrames = ({ entry with ready := rest } : PeerEntry).heldFrames ∧
      entry.heldBytes = ({ entry with ready := rest } : PeerEntry).heldBytes := by
  simp only [heldFrames, heldBytes, countedBytes, countedOf, hready, List.filter_cons,
    Bool.false_eq_true, if_false]
  exact ⟨trivial, trivial⟩

theorem closed_covered : Closed Covered where
  fresh := fun _ _ ↦ ⟨le_rfl, le_rfl⟩
  charge := fun _ _ _ hcovered ↦ ⟨hcovered.frames, hcovered.bytes⟩
  stage := by
    intro entry datagram hcovered
    obtain ⟨hframes, hbytes⟩ := held_stage entry datagram
    exact ⟨hframes.trans_le (Nat.succ_le_succ hcovered.frames),
      hbytes.trans_le (Nat.add_le_add_right hcovered.bytes _)⟩
  receive := by
    intro entry bytes rest hcovered hready
    obtain ⟨hframes, hbytes⟩ := held_receive hready
    exact ⟨Nat.le_sub_of_add_le (hframes ▸ hcovered.frames),
      Nat.le_sub_of_add_le (hbytes ▸ hcovered.bytes)⟩
  skip := by
    intro entry bytes rest hcovered hready
    obtain ⟨hframes, hbytes⟩ := held_skip hready
    exact ⟨hframes ▸ hcovered.frames, hbytes ▸ hcovered.bytes⟩
  covers := fun _ hcovered ↦ hcovered

theorem closed_exact : Closed Exact where
  fresh := fun _ _ ↦ ⟨rfl, rfl⟩
  charge := fun _ _ _ hexact ↦ ⟨hexact.frames, hexact.bytes⟩
  stage := by
    intro entry datagram hexact
    obtain ⟨hframes, hbytes⟩ := held_stage entry datagram
    exact ⟨(congrArg (· + 1) hexact.frames).trans hframes.symm,
      (congrArg (· + datagram.length) hexact.bytes).trans hbytes.symm⟩
  receive := by
    intro entry bytes rest hexact hready
    obtain ⟨hframes, hbytes⟩ := held_receive hready
    exact ⟨Nat.sub_eq_of_eq_add (hexact.frames.trans hframes),
      Nat.sub_eq_of_eq_add (hexact.bytes.trans hbytes)⟩
  skip := by
    intro entry bytes rest hexact hready
    obtain ⟨hframes, hbytes⟩ := held_skip hready
    exact ⟨hexact.frames.trans hframes, hexact.bytes.trans hbytes⟩
  covers := fun _ ↦ Exact.covered

/-- The staged datagrams a tick loses: those whose number the schedule drops. -/
def lost (faults : FaultSchedule) : ℕ → List (List UInt8) → List (List UInt8)
  | _, [] => []
  | datagrams, bytes :: rest =>
    let number := (datagrams + 1) % 2 ^ 64
    if periodic faults.lossEvery number then bytes :: lost faults number rest
    else lost faults number rest

/-- Nothing is lost exactly when no staged datagram has a number the schedule drops. -/
theorem lost_eq_nil_iff (faults : FaultSchedule) (datagrams : ℕ) (pending : List (List UInt8)) :
    lost faults datagrams pending = [] ↔ ∀ place < pending.length,
      periodic faults.lossEvery ((datagrams + place + 1) % 2 ^ 64) = false := by
  induction pending generalizing datagrams with
  | nil => simp [lost]
  | cons bytes rest ih =>
    have hshift (place : ℕ) : ((datagrams + 1) % 2 ^ 64 + place + 1) % 2 ^ 64 =
        (datagrams + (place + 1) + 1) % 2 ^ 64 := by
      omega
    have hnext := ih ((datagrams + 1) % 2 ^ 64)
    simp only [hshift] at hnext
    cases hfirst : periodic faults.lossEvery ((datagrams + 1) % 2 ^ 64) with
    | true =>
      simp only [lost, hfirst, if_true, reduceCtorEq, false_iff, not_forall]
      exact ⟨0, Nat.succ_pos _, by rw [Nat.add_zero, hfirst]; decide⟩
    | false =>
      simp only [lost, hfirst, Bool.false_eq_true, if_false, hnext, List.length_cons]
      constructor
      · intro hrest place hplace
        cases place with
        | zero => exact hfirst
        | succ place => exact hrest place (by omega)
      · exact fun hall place hplace ↦ hall (place + 1) (by omega)

/-- What the pump delivers and what it loses are what was staged. -/
theorem foldl_pumpOne (faults : FaultSchedule) (pending : List (List UInt8))
    (state : ℕ × List ReadyDatagram) : (countedOf (pending.foldl (pumpOne faults) state).2).length +
        (lost faults state.1 pending).length = (countedOf state.2).length + pending.length ∧
    countedBytes (pending.foldl (pumpOne faults) state).2 + bytesOf (lost faults state.1 pending) =
      countedBytes state.2 + bytesOf pending := by
  induction pending generalizing state with
  | nil => exact ⟨rfl, rfl⟩
  | cons bytes rest ih =>
    obtain ⟨hframes, hbytes⟩ := ih (pumpOne faults state bytes)
    have hnumber : (pumpOne faults state bytes).1 = (state.1 + 1) % 2 ^ 64 := by
      unfold pumpOne
      dsimp only
      split_ifs <;> rfl
    rw [hnumber] at hframes hbytes
    rw [List.foldl_cons, lost]
    by_cases hloss : periodic faults.lossEvery ((state.1 + 1) % 2 ^ 64) = true
    · have hkept : (pumpOne faults state bytes).2 = state.2 := by
        unfold pumpOne
        dsimp only
        rw [if_pos hloss]
      rw [hkept] at hframes hbytes
      rw [if_pos hloss, List.length_cons, List.length_cons]
      simp only [bytesOf, List.map_cons, List.sum_cons] at hbytes ⊢
      exact ⟨by omega, by omega⟩
    · have hadded : (countedOf (pumpOne faults state bytes).2).length =
            (countedOf state.2).length + 1 ∧
          countedBytes (pumpOne faults state bytes).2 = countedBytes state.2 + bytes.length := by
        unfold pumpOne
        dsimp only
        rw [if_neg hloss]
        split_ifs
        · rw [countedOf_append, countedBytes_append, List.length_append]
          exact ⟨rfl, rfl⟩
        · rw [countedOf_append, countedBytes_append, List.length_append]
          exact ⟨rfl, rfl⟩
      rw [hadded.1] at hframes
      rw [hadded.2] at hbytes
      rw [if_neg hloss, List.length_cons]
      simp only [bytesOf, List.map_cons, List.sum_cons] at hbytes ⊢
      exact ⟨by omega, by omega⟩

end PeerEntry

theorem shuffleBlocks_perm {block fuel : ℕ} {stream : Pcg32} {batch : List ReadyDatagram}
    {shuffled : List ReadyDatagram × Pcg32}
    (hshuffle : shuffleBlocks block fuel stream batch = some shuffled) : shuffled.1.Perm batch := by
  induction fuel generalizing stream batch shuffled with
  | zero =>
    cases hshuffle
    exact List.Perm.refl batch
  | succ fuel ih =>
    unfold shuffleBlocks at hshuffle
    dsimp only at hshuffle
    split_ifs at hshuffle
    · obtain ⟨drawn, -, hrest⟩ := Option.bind_eq_some_iff.mp hshuffle
      obtain ⟨rest, hlater, rfl⟩ := Option.map_eq_some_iff.mp hrest
      have hparts := ((batch.take block).rotate_perm drawn.1.toNat).append (ih hlater)
      rwa [List.take_append_drop] at hparts
    · obtain ⟨rest, hrest, rfl⟩ := Option.map_eq_some_iff.mp hshuffle
      have hparts := (List.Perm.refl (batch.take block)).append (ih hrest)
      rwa [List.take_append_drop] at hparts

namespace PeerEntry

/-- What a pump leaves of a peer: its counters stay, and it holds what it did not lose. -/
structure Pumped (faults : FaultSchedule) (before after : PeerEntry) : Prop where
  stagedFrames : after.stagedFrames = before.stagedFrames
  stagedBytes : after.stagedBytes = before.stagedBytes
  frames : after.heldFrames + (lost faults before.datagrams before.pending).length =
    before.heldFrames
  bytes : after.heldBytes + bytesOf (lost faults before.datagrams before.pending) =
    before.heldBytes

theorem pump_pumped {faults : FaultSchedule} {before after : PeerEntry} {stream next : Pcg32}
    (hpump : before.pump faults stream = some (after, next)) : Pumped faults before after := by
  obtain ⟨⟨batch, rest⟩, hbatch, hafter⟩ := Option.map_eq_some_iff.mp hpump
  simp only [Prod.mk.injEq] at hafter
  obtain ⟨rfl, -⟩ := hafter
  have hperm : batch.Perm (before.pending.foldl (pumpOne faults) (before.datagrams, [])).2 := by
    split_ifs at hbatch
    · exact shuffleBlocks_perm hbatch
    · cases hbatch
      exact List.Perm.refl _
  obtain ⟨hframes, hbytes⟩ := foldl_pumpOne faults before.pending (before.datagrams, [])
  refine ⟨rfl, rfl, ?_, ?_⟩
  · simp only [heldFrames, countedOf_append, List.length_append, length_countedOf_perm hperm,
      List.length_nil]
    simp only [countedOf, List.filter_nil, List.length_nil] at hframes ⊢
    omega
  · simp only [heldBytes, countedBytes_append, countedBytes_perm hperm]
    simp only [bytesOf, countedBytes, countedOf, List.filter_nil, List.map_nil, List.sum_nil]
      at hbytes ⊢
    omega

end PeerEntry

/-! ### The fabric -/

namespace InMemoryTransport

structure HostTotals (transport : InMemoryTransport) : Prop where
  frames : transport.stagedHostFrames = transport.peers.sum PeerEntry.stagedFrames
  bytes : transport.stagedHostBytes = transport.peers.sum PeerEntry.stagedBytes

structure Accounting (property : PeerEntry → Prop) (transport : InMemoryTransport) : Prop
    extends HostTotals transport where
  peers : ∀ peer entry, transport.peers.get? peer = some entry → property entry

/-- The counters cover what the peers hold. -/
abbrev Covered := Accounting PeerEntry.Covered

/-- Each peer's counters are what it holds, and the host totals are their sums. -/
abbrev Accounted := Accounting PeerEntry.Exact

/-- No staged datagram of any peer has a number the schedule drops. -/
def Lossless (transport : InMemoryTransport) (faults : FaultSchedule) : Prop :=
  ∀ peer entry, transport.peers.get? peer = some entry → ∀ place < entry.pending.length,
    periodic faults.lossEvery ((entry.datagrams + place + 1) % 2 ^ 64) = false

variable {faults : FaultSchedule}

theorem pumpAll_spec {entries : List (PeerId × PeerEntry)}
    {state final : BTreeMap PeerId PeerEntry × Pcg32} (hnodup : (entries.map Prod.fst).Nodup)
    (hbound : ∀ item ∈ entries, state.1.get? item.1 = some item.2)
    (hpump : pumpAll faults entries state = some final) :
    (∀ item ∈ entries, ∃ after, final.1.get? item.1 = some after ∧
        PeerEntry.Pumped faults item.2 after) ∧
      (∀ peer ∉ entries.map Prod.fst, final.1.get? peer = state.1.get? peer) ∧
      final.1.sum PeerEntry.stagedFrames = state.1.sum PeerEntry.stagedFrames ∧
      final.1.sum PeerEntry.stagedBytes = state.1.sum PeerEntry.stagedBytes := by
  induction entries generalizing state with
  | nil =>
    cases hpump
    exact ⟨fun _ hmem ↦ absurd hmem List.not_mem_nil, fun _ _ ↦ rfl, rfl, rfl⟩
  | cons item rest ih =>
    obtain ⟨peer, entry⟩ := item
    obtain ⟨⟨after, stream⟩, hone, hrest⟩ := Option.bind_eq_some_iff.mp hpump
    obtain ⟨hfirst, hlater⟩ := List.nodup_cons.mp hnodup
    obtain ⟨hentry, hothers⟩ := List.forall_mem_cons.mp hbound
    have hpumped := PeerEntry.pump_pumped hone
    have hother {other : PeerId} (hmem : other ∈ rest.map Prod.fst) : other ≠ peer :=
      fun heq ↦ hfirst (heq ▸ hmem)
    obtain ⟨hitems, hkept, hframes, hbytes⟩ := ih hlater (fun item hmem ↦ by
      rw [BTreeMap.get?_insert_of_ne _ (hother (List.mem_map_of_mem hmem))]
      exact hothers item hmem) hrest
    have hsum (weight : PeerEntry → ℕ) (hweight : weight after = weight entry) :
        (state.1.insert peer after).sum weight = state.1.sum weight := by
      have hswap : (state.1.insert peer after).sum weight + weight entry =
          state.1.sum weight + weight after :=
        state.1.sum_insert_of_get? hentry after weight
      omega
    refine ⟨List.forall_mem_cons.mpr ⟨⟨after, ?_, hpumped⟩, hitems⟩, fun other hmem ↦ ?_, ?_, ?_⟩
    · rw [hkept peer hfirst, BTreeMap.get?_insert_self]
    · obtain ⟨hne, hmem⟩ := not_or.mp (List.mem_cons.not.mp hmem)
      rw [hkept other hmem, BTreeMap.get?_insert_of_ne _ hne]
    · rw [hframes, hsum _ hpumped.stagedFrames]
    · rw [hbytes, hsum _ hpumped.stagedBytes]

theorem tick_spec {transport next : InMemoryTransport} (htick : transport.tick faults = some next) :
    (∀ peer after, next.peers.get? peer = some after → ∃ before,
        transport.peers.get? peer = some before ∧ PeerEntry.Pumped faults before after) ∧
      (∀ peer before, transport.peers.get? peer = some before → ∃ after,
        next.peers.get? peer = some after ∧ PeerEntry.Pumped faults before after) ∧
      (transport.HostTotals → next.HostTotals) := by
  obtain ⟨final, hpump, rfl⟩ := Option.map_eq_some_iff.mp htick
  obtain ⟨hitems, hkept, hframes, hbytes⟩ := pumpAll_spec transport.peers.nodup_keys
    (fun item hmem ↦ transport.peers.mem_entries_iff.mp hmem) hpump
  have hforward (peer : PeerId) (before : PeerEntry)
      (hget : transport.peers.get? peer = some before) :
      ∃ after, final.1.get? peer = some after ∧ PeerEntry.Pumped faults before after :=
    hitems (peer, before) (transport.peers.mem_entries_iff.mpr hget)
  refine ⟨fun peer after hget ↦ ?_, hforward, fun htotals ↦ ⟨?_, ?_⟩⟩
  · by_cases hmem : peer ∈ transport.peers.keys
    · obtain ⟨before, hbefore⟩ := transport.peers.mem_keys_iff.mp hmem
      obtain ⟨also, halso, hpumped⟩ := hforward peer before hbefore
      change final.1.get? peer = some after at hget
      rw [hget, Option.some.injEq] at halso
      exact ⟨before, hbefore, halso ▸ hpumped⟩
    · refine absurd (transport.peers.mem_keys_iff.mpr ⟨after, ?_⟩) hmem
      rw [← hkept peer hmem]
      exact hget
  · exact htotals.frames.trans hframes.symm
  · exact htotals.bytes.trans hbytes.symm

/-- The next handle is above every present one. -/
def Fresh (transport : InMemoryTransport) : Prop :=
  ∀ peer ≥ transport.nextPeer, transport.peers.get? peer = none

theorem fresh_new (caps : QueueCaps) (rates : RateCaps) (clock : ℕ) : Fresh (new caps rates clock) :=
  fun _ _ ↦ rfl

variable {peer : PeerId}

theorem Fresh.insert {transport : InMemoryTransport} (hfresh : transport.Fresh)
    {entry : PeerEntry} (hentry : transport.peers.get? peer = some entry) (after : PeerEntry)
    {other : PeerId} (hother : other ≥ transport.nextPeer) :
    (transport.peers.insert peer after).get? other = none := by
  rw [BTreeMap.get?_insert]
  split_ifs with heq
  · rw [hfresh peer (heq ▸ hother)] at hentry
    exact absurd hentry.symm (Option.some_ne_none _)
  · exact hfresh other hother

variable {property : PeerEntry → Prop} {transport next : InMemoryTransport}

theorem accounting_new (caps : QueueCaps) (rates : RateCaps) (clock : ℕ) :
    Accounting property (new caps rates clock) where
  frames := rfl
  bytes := rfl
  peers := fun _ _ hget ↦ absurd hget.symm (Option.some_ne_none _)

theorem Accounting.rebind (haccounting : Accounting property transport) {before after : PeerEntry}
    (hbefore : transport.peers.get? peer = some before) (hafter : property after)
    (hpeers : next.peers = transport.peers.insert peer after)
    (hframes : next.stagedHostFrames + before.stagedFrames =
      transport.stagedHostFrames + after.stagedFrames)
    (hbytes : next.stagedHostBytes + before.stagedBytes =
      transport.stagedHostBytes + after.stagedBytes) : Accounting property next := by
  have hsum (weight : PeerEntry → ℕ) : next.peers.sum weight + weight before =
      transport.peers.sum weight + weight after := by
    rw [hpeers]
    exact transport.peers.sum_insert_of_get? hbefore after weight
  refine ⟨⟨?_, ?_⟩, fun other entry hget ↦ ?_⟩
  · have htotal := hsum PeerEntry.stagedFrames
    rw [← haccounting.frames] at htotal
    omega
  · have htotal := hsum PeerEntry.stagedBytes
    rw [← haccounting.bytes] at htotal
    omega
  · rw [hpeers, BTreeMap.get?_insert] at hget
    split_ifs at hget with heq
    · exact Option.some.inj hget ▸ hafter
    · exact haccounting.peers other entry hget

theorem addPeer_accounting (hclosed : PeerEntry.Closed property) (hfresh : transport.Fresh)
    (haccounting : Accounting property transport) (hadd : transport.addPeer = .ok (peer, next)) :
    next.Fresh ∧ Accounting property next := by
  unfold addPeer at hadd
  split_ifs at hadd
  simp only [Except.ok.injEq, Prod.mk.injEq] at hadd
  obtain ⟨-, rfl⟩ := hadd
  have hnone := hfresh transport.nextPeer le_rfl
  refine ⟨fun other hother ↦ ?_, ⟨?_, ?_⟩, fun other entry hget ↦ ?_⟩
  · have hne : other ≠ transport.nextPeer := (Nat.lt_of_succ_le hother).ne'
    exact (BTreeMap.get?_insert_of_ne _ hne _).trans (hfresh other (Nat.le_of_succ_le hother))
  · refine haccounting.frames.trans ?_
    rw [BTreeMap.sum_insert_of_fresh _ hnone]
    exact (Nat.add_zero _).symm
  · refine haccounting.bytes.trans ?_
    rw [BTreeMap.sum_insert_of_fresh _ hnone]
    exact (Nat.add_zero _).symm
  · change (transport.peers.insert transport.nextPeer _).get? other = some entry at hget
    rw [BTreeMap.get?_insert] at hget
    split_ifs at hget with heq
    · exact Option.some.inj hget ▸ hclosed.fresh _ _
    · exact haccounting.peers other entry hget

theorem removePeer_accounting (hfresh : transport.Fresh)
    (haccounting : Accounting property transport) (peer : PeerId) :
    (transport.removePeer peer).Fresh ∧ Accounting property (transport.removePeer peer) := by
  unfold removePeer
  split
  · exact ⟨hfresh, haccounting⟩
  · next entry hentry =>
    have hframes := transport.peers.sum_erase hentry PeerEntry.stagedFrames
    have hbytes := transport.peers.sum_erase hentry PeerEntry.stagedBytes
    rw [← haccounting.frames] at hframes
    rw [← haccounting.bytes] at hbytes
    refine ⟨fun other hother ↦ ?_, ⟨?_, ?_⟩, fun other later hget ↦ ?_⟩
    · change (transport.peers.erase peer).get? other = none
      rw [BTreeMap.get?_erase]
      split_ifs
      · rfl
      · exact hfresh other hother
    · show transport.stagedHostFrames - entry.stagedFrames = (transport.peers.erase peer).sum _
      omega
    · show transport.stagedHostBytes - entry.stagedBytes = (transport.peers.erase peer).sum _
      omega
    · change (transport.peers.erase peer).get? other = some later at hget
      rw [BTreeMap.get?_erase] at hget
      split_ifs at hget
      exact haccounting.peers other later hget

theorem sendTo_accounting (hclosed : PeerEntry.Closed property) (hfresh : transport.Fresh)
    (haccounting : Accounting property transport) (peer : PeerId) (bytes : List UInt8) :
    (transport.sendTo peer bytes).2.Fresh ∧
      Accounting property (transport.sendTo peer bytes).2 := by
  unfold sendTo
  split
  · exact ⟨hfresh, haccounting⟩
  · next entry hentry =>
    have hentryProperty := haccounting.peers peer entry hentry
    have hcharged := hclosed.charge entry (entry.frameBudget.consume transport.clock 1).2
      (entry.byteBudget.consume transport.clock bytes.length).2 hentryProperty
    dsimp only
    split_ifs
    · exact ⟨fun other hother ↦ hfresh.insert hentry _ hother,
        haccounting.rebind hentry hcharged rfl rfl rfl⟩
    · exact ⟨fun other hother ↦ hfresh.insert hentry _ hother,
        haccounting.rebind hentry hcharged rfl rfl rfl⟩
    · exact ⟨fun other hother ↦ hfresh.insert hentry _ hother,
        haccounting.rebind hentry hcharged rfl rfl rfl⟩
    · refine ⟨fun other hother ↦ hfresh.insert hentry _ hother,
        haccounting.rebind hentry (hclosed.stage _ bytes hcharged) rfl ?_ ?_⟩
      · dsimp only
        omega
      · dsimp only
        omega

/-- A receive returns. Assumes: the counters cover what the peers hold. -/
theorem Accounting.recvFrom_isSome (hcovered : transport.Covered) (peer : PeerId) :
    (transport.recvFrom peer).isSome = true := by
  unfold recvFrom
  split
  · rfl
  · next entry hentry =>
    split
    · rfl
    · next datagram rest hready =>
      split_ifs with hcounted hreleased
      · rfl
      · refine absurd ?_ hreleased
        obtain ⟨bytes, counted⟩ := datagram
        dsimp only at hcounted
        subst hcounted
        obtain ⟨hframes, hbytes⟩ := PeerEntry.held_receive hready
        have hentryCovered := hcovered.peers peer entry hentry
        have hheldFrames := hentryCovered.frames
        have hheldBytes := hentryCovered.bytes
        have hhostFrames := transport.peers.le_sum hentry PeerEntry.stagedFrames
        have hhostBytes := transport.peers.le_sum hentry PeerEntry.stagedBytes
        rw [← hcovered.toHostTotals.frames] at hhostFrames
        rw [← hcovered.toHostTotals.bytes] at hhostBytes
        dsimp only
        exact ⟨by omega, by omega, by omega, by omega⟩
      · rfl

theorem recvFrom_accounting (hclosed : PeerEntry.Closed property) (hfresh : transport.Fresh)
    (haccounting : Accounting property transport) {received : Option (List UInt8)}
    (hrecv : transport.recvFrom peer = some (received, next)) :
    next.Fresh ∧ Accounting property next := by
  unfold recvFrom at hrecv
  split at hrecv
  · cases hrecv
    exact ⟨hfresh, haccounting⟩
  · next entry hentry =>
    have hentryProperty := haccounting.peers peer entry hentry
    split at hrecv
    · cases hrecv
      exact ⟨hfresh, haccounting⟩
    · next datagram rest hready =>
      obtain ⟨bytes, counted⟩ := datagram
      split_ifs at hrecv with hcounted hreleased
      · dsimp only at hcounted hreleased
        subst hcounted
        cases hrecv
        refine ⟨fun other hother ↦ hfresh.insert hentry _ hother,
          haccounting.rebind hentry (hclosed.receive entry bytes rest hentryProperty hready) rfl
            ?_ ?_⟩
        · dsimp only
          omega
        · dsimp only
          omega
      · rw [Bool.not_eq_true] at hcounted
        dsimp only at hcounted
        subst hcounted
        cases hrecv
        exact ⟨fun other hother ↦ hfresh.insert hentry _ hother,
          haccounting.rebind hentry (hclosed.skip entry bytes rest hentryProperty hready) rfl
            rfl rfl⟩

variable {op : TransportOp}

/-- Every operation but a tick keeps the accounting, for a property that staging and receiving
keep. A tick keeps it if pumping the present peers does. -/
theorem step_accounting (hclosed : PeerEntry.Closed property) (hfresh : transport.Fresh)
    (haccounting : Accounting property transport)
    (hpump : ∀ faults peer before after, op = .tick faults →
      transport.peers.get? peer = some before → PeerEntry.Pumped faults before after →
      property before → property after) (hstep : transport.step op = some next) :
    next.Fresh ∧ Accounting property next := by
  cases op with
  | addPeer =>
    simp only [step] at hstep
    split at hstep
    · next admitted hadd =>
      cases hstep
      exact addPeer_accounting hclosed hfresh haccounting hadd
    · cases hstep
      exact ⟨hfresh, haccounting⟩
  | removePeer peer =>
    cases hstep
    exact removePeer_accounting hfresh haccounting peer
  | sendTo peer bytes =>
    cases hstep
    exact sendTo_accounting hclosed hfresh haccounting peer bytes
  | recvFrom peer =>
    obtain ⟨⟨received, after⟩, hrecv, rfl⟩ := Option.map_eq_some_iff.mp hstep
    exact recvFrom_accounting hclosed hfresh haccounting hrecv
  | tick faults =>
    obtain ⟨hbackward, -, htotals⟩ := tick_spec hstep
    have hnext : next.nextPeer = transport.nextPeer := by
      obtain ⟨final, -, rfl⟩ := Option.map_eq_some_iff.mp hstep
      rfl
    refine ⟨fun other hother ↦ ?_, htotals haccounting.toHostTotals, fun peer after hget ↦ ?_⟩
    · by_contra hpresent
      obtain ⟨after, hafter⟩ := Option.ne_none_iff_exists'.mp hpresent
      obtain ⟨before, hbefore, -⟩ := hbackward other after hafter
      rw [hfresh other (hnext ▸ hother)] at hbefore
      exact absurd hbefore.symm (Option.some_ne_none _)
    · obtain ⟨before, hbefore, hpumped⟩ := hbackward peer after hget
      exact hpump faults peer before after rfl hbefore hpumped
        (haccounting.peers peer before hbefore)
  | setClock now =>
    cases hstep
    exact ⟨hfresh, ⟨haccounting.frames, haccounting.bytes⟩, haccounting.peers⟩

/-- Every operation keeps the counters covering what the peers hold. -/
theorem step_covered (hfresh : transport.Fresh) (hcovered : transport.Covered)
    (hstep : transport.step op = some next) : next.Fresh ∧ next.Covered := by
  refine step_accounting PeerEntry.closed_covered hfresh hcovered ?_ hstep
  intro faults peer before after _ _ hpumped hbefore
  refine ⟨?_, ?_⟩
  · rw [hpumped.stagedFrames]
    exact (Nat.le_of_add_right_le hpumped.frames.le).trans hbefore.frames
  · rw [hpumped.stagedBytes]
    exact (Nat.le_of_add_right_le hpumped.bytes.le).trans hbefore.bytes

/-- An operation keeps the accounting exact. Assumes of a tick: it loses no datagram. -/
theorem step_accounted (hfresh : transport.Fresh) (haccounted : transport.Accounted)
    (hlossless : ∀ faults, op = .tick faults → transport.Lossless faults)
    (hstep : transport.step op = some next) : next.Fresh ∧ next.Accounted := by
  refine step_accounting PeerEntry.closed_exact hfresh haccounted ?_ hstep
  intro faults peer before after hop hget hpumped hbefore
  have hnone := (PeerEntry.lost_eq_nil_iff faults before.datagrams before.pending).mpr
    (hlossless faults hop peer before hget)
  have hframes := hpumped.frames
  have hbytes := hpumped.bytes
  rw [hnone] at hframes hbytes
  exact ⟨hpumped.stagedFrames.trans (hbefore.frames.trans hframes.symm),
    hpumped.stagedBytes.trans (hbefore.bytes.trans hbytes.symm)⟩

theorem lossless_of_accounted (haccounted : transport.Accounted) (hnext : next.Accounted)
    (htick : transport.tick faults = some next) : transport.Lossless faults := by
  intro peer before hbefore
  obtain ⟨-, hforward, -⟩ := tick_spec htick
  obtain ⟨after, hafter, hpumped⟩ := hforward peer before hbefore
  have hstart := (haccounted.peers peer before hbefore).frames
  have hend := (hnext.peers peer after hafter).frames
  have hkept := hpumped.stagedFrames
  have hframes := hpumped.frames
  apply (PeerEntry.lost_eq_nil_iff faults before.datagrams before.pending).mp
  apply List.eq_nil_of_length_eq_zero
  omega

/-! ### Runs -/

/-- What the accounting is for: it is exact, a send has room exactly when what is held leaves room
under the caps, and a peer with nothing staged has its whole quota. -/
structure SoundAccounting (transport : InMemoryTransport) : Prop where
  accounted : transport.Accounted
  room : ∀ peer entry size, transport.peers.get? peer = some entry →
    (transport.hasRoom entry size = true ↔
      entry.heldFrames + 1 ≤ min usizeMax transport.caps.perPeerFrames ∧
      entry.heldBytes + size ≤ min usizeMax transport.caps.perPeerBytes ∧
      transport.peers.sum PeerEntry.heldFrames + 1 ≤ min usizeMax transport.caps.hostFrames ∧
      transport.peers.sum PeerEntry.heldBytes + size ≤ min usizeMax transport.caps.hostBytes)
  drained : ∀ peer entry, transport.peers.get? peer = some entry → entry.pending = [] →
    entry.ready = [] → entry.stagedFrames = 0 ∧ entry.stagedBytes = 0

theorem soundAccounting_of_accounted (haccounted : transport.Accounted) :
    transport.SoundAccounting where
  accounted := haccounted
  room := by
    intro peer entry size hentry
    have hexact := haccounted.peers peer entry hentry
    have hsumFrames : transport.stagedHostFrames = transport.peers.sum PeerEntry.heldFrames :=
      haccounted.toHostTotals.frames.trans (transport.peers.sum_congr
        fun key value hvalue ↦ (haccounted.peers key value hvalue).frames)
    have hsumBytes : transport.stagedHostBytes = transport.peers.sum PeerEntry.heldBytes :=
      haccounted.toHostTotals.bytes.trans (transport.peers.sum_congr
        fun key value hvalue ↦ (haccounted.peers key value hvalue).bytes)
    simp only [hasRoom, Bool.and_eq_true, decide_eq_true_eq, hexact.frames, hexact.bytes,
      hsumFrames, hsumBytes, le_min_iff]
    tauto
  drained := by
    intro peer entry hentry hpending hready
    have hexact := haccounted.peers peer entry hentry
    rw [hexact.frames, hexact.bytes, PeerEntry.heldFrames, PeerEntry.heldBytes, hpending, hready]
    exact ⟨rfl, rfl⟩

/-- No tick of a run loses a datagram of a peer that is present. -/
def LosslessRun (start : InMemoryTransport) (ops : List TransportOp) : Prop :=
  ∀ first faults rest state, ops = first ++ .tick faults :: rest →
    run step start first = some state → state.Lossless faults

/-- A run that loses nothing from a state loses nothing from the next one. -/
theorem LosslessRun.tail {ops : List TransportOp} (hlossless : LosslessRun transport (op :: ops))
    (hstep : transport.step op = some next) : LosslessRun next ops := by
  intro first faults rest state hops hrun
  refine hlossless (op :: first) faults rest state ?_ ?_
  · rw [hops, List.cons_append]
  · exact run_cons_eq_some.mpr ⟨next, hstep, hrun⟩

theorem accounted_of_losslessRun {ops first rest : List TransportOp} (hfresh : transport.Fresh)
    (haccounted : transport.Accounted) (hlossless : LosslessRun transport ops)
    (hops : ops = first ++ rest) (hrun : run step transport first = some next) :
    next.Accounted := by
  induction first generalizing transport ops with
  | nil =>
    cases hrun
    exact haccounted
  | cons op later ih =>
    obtain ⟨middle, hstep, hlater⟩ := run_cons_eq_some.mp hrun
    rw [List.cons_append] at hops
    rw [hops] at hlossless
    obtain ⟨hmiddleFresh, hmiddle⟩ := step_accounted hfresh haccounted (fun faults hop ↦
      hlossless [] faults (later ++ rest) transport (by rw [hop, List.nil_append]) rfl) hstep
    exact ih hmiddleFresh hmiddle (hlossless.tail hstep) rfl hlater

/-- In every state of every run a receive returns, and the accounting does what it is for in every
state of a run exactly when no tick of the run loses a datagram. -/
theorem accounted_iff_lossless (caps : QueueCaps) (rates : RateCaps) (clock : ℕ)
    (ops : List TransportOp) (final : InMemoryTransport)
    (hrun : run step (new caps rates clock) ops = some final) :
    (∀ first rest state, ops = first ++ rest → run step (new caps rates clock) first = some state →
        ∀ peer, (state.recvFrom peer).isSome = true) ∧ ((∀ first rest state, ops = first ++ rest →
          run step (new caps rates clock) first = some state → state.SoundAccounting) ↔
        LosslessRun (new caps rates clock) ops) := by
  refine ⟨fun first rest state hops hfirst ↦ ?_, fun hsound ↦ ?_, fun hlossless ↦ ?_⟩
  · have hcovered : state.Fresh ∧ state.Covered :=
      run_preserves (fun _ _ _ hbefore hstep ↦ step_covered hbefore.1 hbefore.2 hstep)
        ⟨fresh_new caps rates clock, accounting_new caps rates clock⟩ hfirst
    exact hcovered.2.recvFrom_isSome
  · intro first faults rest state hops hfirst
    rw [hops, run_append, hfirst, Option.bind_some, run_cons_eq_some] at hrun
    obtain ⟨next, htick, -⟩ := hrun
    have hnext : run step (new caps rates clock) (first ++ [.tick faults]) = some next := by
      rw [run_append, hfirst, Option.bind_some, run_cons_eq_some]
      exact ⟨next, htick, rfl⟩
    refine lossless_of_accounted (hsound first _ state hops hfirst).accounted
      (hsound (first ++ [.tick faults]) rest next ?_ hnext).accounted htick
    rw [hops, List.append_assoc, List.singleton_append]
  · intro first rest state hops hfirst
    exact soundAccounting_of_accounted (accounted_of_losslessRun (fresh_new caps rates clock)
      (accounting_new caps rates clock) hlossless hops hfirst)

/-! ### A run of each kind -/

/-- Room for one datagram, and budgets for ten. -/
def oneFrame : InMemoryTransport := new ⟨1, 64, 1, 64⟩ ⟨10, 10, 1000, 1000⟩ 0

/-- One datagram staged and pumped under a schedule. -/
def sendAndPump (faults : FaultSchedule) : List TransportOp :=
  [.addPeer, .sendTo 0 [7], .tick faults]

def dropEvery : FaultSchedule := ⟨some 1, none, 0, 0⟩

/-- A schedule that delivers every datagram twice. -/
def duplicateEvery : FaultSchedule := ⟨none, some 1, 0, 0⟩

theorem duplicated_accounted : ∃ final,
    run step oneFrame (sendAndPump duplicateEvery) = some final ∧ final.SoundAccounting := by
  have hreturns : (run step oneFrame (sendAndPump duplicateEvery)).isSome = true := by
    decide +kernel
  obtain ⟨final, hrun⟩ := Option.isSome_iff_exists.mp hreturns
  have hlossless : LosslessRun oneFrame (sendAndPump duplicateEvery) := by
    intro first faults rest state hops _ peer entry _ place _
    have hmem : TransportOp.tick faults ∈ sendAndPump duplicateEvery := by
      rw [hops]
      exact List.mem_append_right _ List.mem_cons_self
    simp only [sendAndPump, List.mem_cons, List.not_mem_nil, or_false, reduceCtorEq, false_or,
      TransportOp.tick.injEq] at hmem
    rw [hmem]
    rfl
  have hsound := (accounted_iff_lossless _ _ _ (sendAndPump duplicateEvery) final hrun).2.mpr
    hlossless
  exact ⟨final, hrun, hsound (sendAndPump duplicateEvery) [] final (List.append_nil _).symm hrun⟩

/-- A dropped datagram stays in the counters: with nothing staged the peer has no room left. -/
theorem dropped_not_accounted : ∃ final entry,
    run step oneFrame (sendAndPump dropEvery) = some final ∧
      final.peers.get? 0 = some entry ∧ entry.pending = [] ∧ entry.ready = [] ∧
      entry.stagedFrames = 1 ∧ final.hasRoom entry 1 = false ∧ ¬ final.SoundAccounting := by
  have hreturns : ((run step oneFrame (sendAndPump dropEvery)).bind fun final ↦
      (final.peers.get? 0).map fun entry ↦ (entry.pending, entry.ready, entry.stagedFrames,
        final.hasRoom entry 1)) = some ([], [], 1, false) := by
    decide +kernel
  obtain ⟨final, hrun, hpeer⟩ := Option.bind_eq_some_iff.mp hreturns
  obtain ⟨entry, hentry, hparts⟩ := Option.map_eq_some_iff.mp hpeer
  simp only [Prod.mk.injEq] at hparts
  obtain ⟨hpending, hready, hframes, hroom⟩ := hparts
  refine ⟨final, entry, hrun, hentry, hpending, hready, hframes, hroom, fun hsound ↦ ?_⟩
  obtain ⟨hnone, -⟩ := hsound.drained 0 entry hentry hpending hready
  exact absurd (hframes.symm.trans hnone) Nat.one_ne_zero

end InMemoryTransport

end Crpg.Net
