import Crpg.Server.Widening

/-!
# Replacing the grants of a session

`setGrants` returns without a change, or installs the grants and the map planned for them. A call
that fails belongs to the first kind, but for the documented one: a session without snapshots whose
narrowed state has no room keeps the new grants, with the reset pending. Over every sequence of
calls, whatever happens in between, the ids of a session keep their entities.
-/

set_option autoImplicit false

namespace Crpg.Server

open Crpg.Core Crpg.Lib Crpg.Rules Crpg.Sim Crpg.Net

/-! ### Calls that stop -/

section StopsOr

variable {σ ε α β : Type} {state : σ} {reply : Outcome σ ε β → Prop}

/-- A call that returns an error without a change, does not return, or replies in some way. -/
def StopsOr (state : σ) (reply : Outcome σ ε β → Prop) (outcome : Outcome σ ε β) : Prop :=
  (∃ error, outcome = .err error state) ∨ (∃ why, outcome = .fault why) ∨ reply outcome

theorem stopsOr_of_reply {outcome : Outcome σ ε β} (hreply : reply outcome) :
    StopsOr state reply outcome :=
  .inr (.inr hreply)

theorem stopsOr_failIf {test : Prop} [Decidable test] {error : ε}
    {next : Unit → σ → Outcome σ ε β} (hnext : ¬test → StopsOr state reply (next () state)) :
    StopsOr state reply (((Call.failIf test error : Call σ ε Unit) state).bind next) := by
  by_cases htest : test
  · rw [Call.failIf_of htest]
    exact .inl ⟨error, rfl⟩
  · rw [Call.failIf_of_not htest]
    exact hnext htest

theorem stopsOr_sub {left right : ℕ} {next : ℕ → σ → Outcome σ ε β}
    (hnext : right ≤ left → StopsOr state reply (next (left - right) state)) :
    StopsOr state reply (((Call.sub left right : Call σ ε ℕ) state).bind next) := by
  by_cases hle : right ≤ left
  · rw [Call.sub_of_le hle]
    exact hnext hle
  · unfold Call.sub
    rw [if_neg hle]
    exact .inr (.inl ⟨_, rfl⟩)

theorem stopsOr_ofResult {result : Result ε α} {next : α → σ → Outcome σ ε β}
    (hnext : ∀ value, result = .ok value → StopsOr state reply (next value state)) :
    StopsOr state reply (((Call.ofResult result : Call σ ε α) state).bind next) := by
  cases result with
  | ok value => exact hnext value rfl
  | err error => exact .inl ⟨error, rfl⟩
  | panic => exact .inr (.inl ⟨_, rfl⟩)

theorem stopsOr_okOr {error : ε} {found : Option α} {next : α → σ → Outcome σ ε β}
    (hnext : ∀ value, found = some value → StopsOr state reply (next value state)) :
    StopsOr state reply (((Call.okOr error found : Call σ ε α) state).bind next) := by
  cases found with
  | some value => exact hnext value rfl
  | none => exact .inl ⟨error, rfl⟩

end StopsOr

/-! ### Room -/

def frameBytes (frames : List LoggedFrame) : ℕ :=
  (frames.map fun frame ↦ frame.bytes.length).sum

structure HasRoom (part : ℕ × Session) (frames : List LoggedFrame) : Prop where
  count : part.2.log.length + frames.length ≤ egressCaps.perPeerFrames
  bytes : part.2.logBytes + frameBytes frames ≤ egressCaps.perPeerBytes
  total : part.1 + frameBytes frames ≤ egressCaps.hostBytes

theorem Host.hasRoom_of_room {host : Host} {session : Session} {frames : List LoggedFrame}
    (hroom : host.room session frames = true) : HasRoom (host.egressBytes, session) frames := by
  simp only [Host.room, Bool.and_eq_true, decide_eq_true_eq] at hroom
  exact ⟨hroom.1.1, hroom.1.2, hroom.2⟩

namespace Session

/-! ### Pushing frames -/

def deltaCount (frames : List LoggedFrame) : ℕ :=
  (frames.filter fun frame ↦ frame.eventSeq.isSome).length

theorem pushFrame_cases (frame : LoggedFrame) (part : ℕ × Session) :
    (∃ after, pushFrame frame part = .ok () after ∧ part.2.SameNames after.2 ∧
      after.2.nextOrdinal = part.2.nextOrdinal + 1 ∧
      after.2.nextEventSeq =
        part.2.nextEventSeq + if frame.eventSeq.isSome then 1 else 0) ∨
    ∃ after, pushFrame frame part = .err .counterExhausted after ∧ part.2.SameNames after.2 ∧
      (u64Max < part.2.nextOrdinal + 1 ∨
        (frame.eventSeq.isSome ∧ u64Max < part.2.nextEventSeq + 1)) := by
  obtain ⟨total, session⟩ := part
  unfold pushFrame
  by_cases hfull : session.nextOrdinal + 1 > u64Max
  · right
    refine ⟨(total, session), ?_, .refl session, .inl hfull⟩
    simp only [Call.bind_apply, Call.get_apply, Outcome.ok_bind, Call.failIf_of hfull,
      Outcome.err_bind]
  simp only [Call.bind_apply, Call.get_apply, Outcome.ok_bind, Call.failIf_of_not hfull,
    Call.set_apply]
  unfold takeEventSeq
  cases hseq : frame.eventSeq with
  | none =>
    left
    refine ⟨_, rfl, ⟨rfl, rfl, rfl, rfl⟩, rfl, rfl⟩
  | some seq =>
    by_cases hlast : session.nextEventSeq + 1 > u64Max
    · right
      refine ⟨(total, { session with nextOrdinal := session.nextOrdinal + 1 }), ?_,
        ⟨rfl, rfl, rfl, rfl⟩, .inr ⟨rfl, hlast⟩⟩
      simp only [Call.bind_apply, Call.get_apply, Outcome.ok_bind, Call.failIf_of hlast,
        Outcome.err_bind]
    · left
      simp only [Call.bind_apply, Call.get_apply, Outcome.ok_bind, Call.failIf_of_not hlast,
        Call.set_apply, Call.modify_apply]
      exact ⟨_, rfl, ⟨rfl, rfl, rfl, rfl⟩, rfl, rfl⟩

theorem pushFrames_cases (frames : List LoggedFrame) (part : ℕ × Session) :
    (∃ after, pushFrames frames part = .ok () after ∧ part.2.SameNames after.2) ∨
    ∃ after, pushFrames frames part = .err .counterExhausted after ∧ part.2.SameNames after.2 ∧
      frames ≠ [] ∧ (u64Max < part.2.nextOrdinal + frames.length ∨
        (0 < deltaCount frames ∧ u64Max < part.2.nextEventSeq + deltaCount frames)) := by
  unfold pushFrames
  induction frames generalizing part with
  | nil => exact .inl ⟨part, rfl, .refl part.2⟩
  | cons frame rest ih =>
    rw [Call.forM, Call.bind_apply]
    have hcount : deltaCount (frame :: rest) =
        (if frame.eventSeq.isSome then 1 else 0) + deltaCount rest := by
      unfold deltaCount
      rw [List.filter_cons]
      split_ifs with hdelta
      · rw [List.length_cons, Nat.add_comm]
      · rw [Nat.zero_add]
    rcases pushFrame_cases frame part with ⟨middle, heq, hsame, hordinal, hevent⟩ |
      ⟨after, heq, hsame, hfull⟩
    · rw [heq, Outcome.ok_bind]
      rcases ih middle with ⟨after, hrest, hlater⟩ | ⟨after, hrest, hlater, -, hfull⟩
      · exact .inl ⟨after, hrest, hsame.trans hlater⟩
      · refine .inr ⟨after, hrest, hsame.trans hlater, List.cons_ne_nil _ _, ?_⟩
        rw [hcount, List.length_cons]
        rw [hordinal, hevent] at hfull
        rcases hfull with hfull | ⟨hpositive, hfull⟩
        · left
          omega
        · right
          omega
    · rw [heq, Outcome.err_bind]
      refine .inr ⟨after, rfl, hsame, List.cons_ne_nil _ _, ?_⟩
      rw [hcount, List.length_cons]
      rcases hfull with hfull | ⟨hdelta, hfull⟩
      · left
        omega
      · right
        rw [if_pos hdelta]
        omega

theorem Installed.sameNames {before middle after : Session} {grants : DisclosureGrants}
    {planned : EntityMap × ℕ} (hinstalled : Installed before middle grants planned)
    (hsame : SameNames middle after) : Installed before after grants planned :=
  ⟨hsame.grants.trans hinstalled.grants, hsame.map.trans hinstalled.map,
    hsame.reverse.trans hinstalled.reverse, hsame.nextNet.trans hinstalled.nextNet⟩

end Session

namespace Host

variable {host after : Host} {peer : PeerHandle} {session : Session}

theorem deltaCount_of_numberFrames {eventSeq : ℕ} {pieces : List (List DeltaOpV2)}
    {frames : List LoggedFrame} (hframes : host.numberFrames eventSeq pieces = .ok frames) :
    Session.deltaCount frames = frames.length ∧
      (0 < frames.length → eventSeq + frames.length ≤ u64Max) := by
  induction pieces generalizing eventSeq frames with
  | nil =>
    rw [← Result.ok.inj hframes]
    exact ⟨rfl, fun hpositive ↦ absurd hpositive (lt_irrefl 0)⟩
  | cons piece rest ih =>
    simp only [numberFrames, Result.bind_ok_iff, Result.pure_ok_iff, Result.failIf_eq_ok_iff]
      at hframes
    obtain ⟨bytes, -, -, hroom, others, hothers, rfl⟩ := hframes
    obtain ⟨hcount, hlast⟩ := ih hothers
    refine ⟨?_, fun _ ↦ ?_⟩
    · show Session.deltaCount others + 1 = others.length + 1
      rw [hcount]
    · rw [List.length_cons]
      rcases Nat.eq_zero_or_pos others.length with hzero | hpositive
      · omega
      · have hlater := hlast hpositive
        omega

def put (host : Host) (peer : PeerHandle) (part : ℕ × Session) : Host :=
  { host with egressBytes := part.1, sessions := host.sessions.insert peer part.2 }

theorem withSession_cases {α : Type} (hsession : host.sessions.get? peer = some session)
    (call : Call (ℕ × Session) HostError α) :
    withSession peer call host =
      match call (host.egressBytes, session) with
      | .ok value part => .ok value (host.put peer part)
      | .err error part => .err error (host.put peer part)
      | .fault why => .fault why := by
  unfold withSession Call.focus
  simp only [hsession, Option.map_some]
  cases call (host.egressBytes, session) with
  | ok value part => rfl
  | err error part => rfl
  | fault why => rfl

/-- Another binding is not touched by what replaces a session. -/
theorem get?_put_of_ne {other : PeerHandle} (hne : other ≠ peer) (part : ℕ × Session) :
    (host.put peer part).sessions.get? other = host.sessions.get? other :=
  BTreeMap.get?_insert_of_ne _ hne _

theorem get?_put_self (part : ℕ × Session) :
    (host.put peer part).sessions.get? peer = some part.2 :=
  BTreeMap.get?_insert_self ..

structure Granted (host : Host) (peer : PeerHandle) (session : Session) (grants : DisclosureGrants)
    (planned : EntityMap × ℕ) (after : Host) : Prop where
  session : ∃ granted, after.sessions.get? peer = some granted ∧
    session.Installed granted grants planned
  others : ∀ other, other ≠ peer → after.sessions.get? other = host.sessions.get? other

theorem stageSnapshot_cases (hsession : host.sessions.get? peer = some session)
    (grants : DisclosureGrants) (map : EntityMap) (nextNet : ℕ) :
    StopsOr host (fun outcome ↦ ∃ after, outcome = .ok () after ∧
      host.Granted peer session grants (map, nextNet) after)
      (stageSnapshot peer grants map nextNet .narrowed host) := by
  unfold stageSnapshot
  simp only [Call.bind_apply, Call.get_apply, Outcome.ok_bind]
  refine stopsOr_okOr fun found hfound ↦ ?_
  rw [← Option.some.inj (hsession.symm.trans hfound)]
  refine stopsOr_failIf fun _ ↦ stopsOr_sub fun _ ↦ stopsOr_ofResult fun cancel _ ↦
    stopsOr_ofResult fun frames _ ↦ stopsOr_failIf fun hordinals ↦ stopsOr_failIf fun _ ↦
    stopsOr_sub fun _ ↦ stopsOr_failIf fun _ ↦ stopsOr_sub fun _ ↦ ?_
  simp only [Call.set_apply, Outcome.ok_bind]
  apply stopsOr_of_reply
  generalize hcleared : clearedForSnapshot session grants map nextNet (session.nextOrdinal - 1)
    .narrowed = cleared
  generalize hmiddle : ({ host with
    egressBytes := host.egressBytes - session.logBytes
    sessions := host.sessions.insert peer cleared } : Host) = middle
  have hfoundMiddle : middle.sessions.get? peer = some cleared := by
    rw [← hmiddle]
    exact BTreeMap.get?_insert_self ..
  have hinstalled : session.Installed cleared grants (map, nextNet) := by
    rw [← hcleared]
    exact ⟨rfl, rfl, rfl, rfl⟩
  have hothers : ∀ part other, other ≠ peer →
      (middle.put peer part).sessions.get? other = host.sessions.get? other := by
    intro part other hne
    rw [get?_put_of_ne hne, ← hmiddle]
    exact BTreeMap.get?_insert_of_ne _ hne _
  have hordinal : cleared.nextOrdinal = session.nextOrdinal := by
    rw [← hcleared]
    rfl
  rw [withSession_cases hfoundMiddle]
  rcases Session.pushFrames_cases ((cancel.toList ++ frames).map fun bytes ↦ ⟨0, none, bytes⟩)
      (middle.egressBytes, cleared) with
    ⟨pushed, hpush, hsame⟩ | ⟨-, -, -, hnonempty, hfull⟩
  · simp only [Call.bind_apply, hpush, Outcome.ok_bind, Call.modify_apply]
    exact ⟨_, rfl, ⟨_, get?_put_self _, (hinstalled.sameNames hsame).sameNames
      ⟨rfl, rfl, rfl, rfl⟩⟩, hothers _⟩
  · -- The ordinals were counted before anything changed.
    exfalso
    have hcount : ∀ items : List (List UInt8), Session.deltaCount
        (items.map fun bytes ↦ (⟨0, none, bytes⟩ : LoggedFrame)) = 0 := by
      intro items
      unfold Session.deltaCount
      rw [List.length_eq_zero_iff, List.filter_eq_nil_iff]
      intro frame hframe
      obtain ⟨bytes, -, rfl⟩ := List.mem_map.mp hframe
      exact Bool.false_ne_true
    rw [hcount] at hfull
    rw [List.length_map] at hfull
    have hpositive : 0 < (cancel.toList ++ frames).length := by
      rw [List.length_pos_iff]
      intro hempty
      rw [hempty] at hnonempty
      exact hnonempty rfl
    simp only [hordinal] at hfull
    omega

/-- Staging a pending reset fails without a change or empties the wait. -/
theorem tryResync_cases (hsession : host.sessions.get? peer = some session)
    (hevents : session.nextEventSeq = 1) (hordinals : session.nextOrdinal = 1) :
    StopsOr host (fun outcome ↦ ∃ after, outcome = .ok () after ∧
      (∃ names, after.sessions.get? peer = some names ∧ session.SameNames names) ∧
      ∀ other, other ≠ peer → after.sessions.get? other = host.sessions.get? other)
      (tryResync peer host) := by
  unfold tryResync
  simp only [Call.bind_apply, Call.get_apply, Outcome.ok_bind]
  refine stopsOr_okOr fun found hfound ↦ ?_
  rw [← Option.some.inj (hsession.symm.trans hfound)]
  by_cases hpending : session.resyncPending = false
  · rw [if_pos hpending]
    exact stopsOr_of_reply ⟨host, rfl, ⟨session, hsession, .refl session⟩, fun _ _ ↦ rfl⟩
  rw [if_neg hpending]
  simp only [Call.bind_apply]
  refine stopsOr_ofResult fun frames hframes ↦ stopsOr_failIf fun hroom ↦ ?_
  apply stopsOr_of_reply
  rw [withSession_cases hsession]
  rcases Session.pushFrames_cases frames (host.egressBytes, session) with
    ⟨pushed, hpush, hsame⟩ | ⟨-, -, -, -, hfull⟩
  · simp only [Call.bind_apply, hpush, Outcome.ok_bind, Call.modify_apply]
    exact ⟨_, rfl, ⟨_, get?_put_self _, hsame.trans ⟨rfl, rfl, rfl, rfl⟩⟩,
      fun other hne ↦ get?_put_of_ne hne _⟩
  · exfalso
    rw [Bool.not_eq_false] at hroom
    have hlength := (Host.hasRoom_of_room hroom).count
    have hcount := (deltaCount_of_numberFrames hframes).1
    simp only [hcount, hevents, hordinals] at hfull
    have hmax : egressCaps.perPeerFrames + 1 ≤ u64Max := by decide
    simp only at hlength
    omega

/-- The narrowing of a session without snapshots, before its state is staged. -/
def narrowedHost (host : Host) (peer : PeerHandle) (session : Session) (grants : DisclosureGrants)
    (planned : EntityMap × ℕ) : Host :=
  { host with
    egressBytes := host.egressBytes - session.logBytes
    sessions := host.sessions.insert peer (resetDelivery session grants planned.1 planned.2) }

/-- A failure of `setGrants` after the grants were installed: a session without snapshots was
narrowed, or a widening ran out of ordinals. -/
def FailsInstalled (host : Host) (peer : PeerHandle) (session : Session) (grants : DisclosureGrants)
    (planned : EntityMap × ℕ) (error : HostError) (after : Host) : Prop :=
  (isNarrowing session.grants grants = true ∧ session.snapshot = false ∧
    after = host.narrowedHost peer session grants planned) ∨
  (isNarrowing session.grants grants = false ∧ error = .counterExhausted ∧
    u64Max < session.nextOrdinal + egressCaps.perPeerFrames)

/-- What a reply of `setGrants` that changed something did. -/
def GrantReply (host : Host) (peer : PeerHandle) (session : Session) (grants : DisclosureGrants)
    (planned : EntityMap × ℕ) (outcome : Outcome Host HostError GrantUpdate) : Prop :=
  ∃ after, host.Granted peer session grants planned after ∧
    ((∃ update, outcome = .ok update after) ∨
      ∃ error, outcome = .err error after ∧ host.FailsInstalled peer session grants planned error
        after)

section Replies

variable {grants : DisclosureGrants} {planned : EntityMap × ℕ}

theorem narrowLane_cases (hsnapshot : session.snapshot = false)
    (hnarrows : isNarrowing session.grants grants = true) :
    host.GrantReply peer session grants planned
      (((tryResync peer >>= fun _ ↦ pure .rebindRequired : HostCall GrantUpdate))
        (host.narrowedHost peer session grants planned)) ∨
    ∃ why, ((tryResync peer >>= fun _ ↦ pure .rebindRequired : HostCall GrantUpdate))
      (host.narrowedHost peer session grants planned) = .fault why := by
  have hfound : (host.narrowedHost peer session grants planned).sessions.get? peer =
      some (resetDelivery session grants planned.1 planned.2) := BTreeMap.get?_insert_self ..
  have hinstalled : session.Installed (resetDelivery session grants planned.1 planned.2) grants
      planned := ⟨rfl, rfl, rfl, rfl⟩
  have hothers : ∀ other, other ≠ peer →
      (host.narrowedHost peer session grants planned).sessions.get? other =
        host.sessions.get? other := fun other hne ↦ BTreeMap.get?_insert_of_ne _ hne _
  rw [Call.bind_apply]
  rcases tryResync_cases hfound rfl rfl with ⟨error, herror⟩ | ⟨why, hfault⟩ |
    ⟨after, hafter, ⟨names, hnames, hsame⟩, hrest⟩
  · left
    rw [herror, Outcome.err_bind]
    exact ⟨_, ⟨⟨_, hfound, hinstalled⟩, hothers⟩,
      .inr ⟨error, rfl, .inl ⟨hnarrows, hsnapshot, rfl⟩⟩⟩
  · right
    rw [hfault, Outcome.fault_bind]
    exact ⟨why, rfl⟩
  · left
    rw [hafter, Outcome.ok_bind]
    exact ⟨after, ⟨⟨names, hnames, hinstalled.sameNames hsame⟩,
      fun other hne ↦ (hrest other hne).trans (hothers other hne)⟩, .inl ⟨_, rfl⟩⟩

theorem widen_cases (hsession : host.sessions.get? peer = some session)
    (hwidens : isNarrowing session.grants grants = false) {pieces : List (List DeltaOpV2)}
    {frames : List LoggedFrame} (hframes : host.numberFrames session.nextEventSeq pieces = .ok frames)
    (hroom : host.room session frames = true) :
    host.GrantReply peer session grants planned
      ((withSession peer (do
        Call.modify fun (total, session) ↦
          (total, { session with grants := grants }.installMap planned.1 planned.2)
        pushFrames frames) >>= fun _ ↦ pure .unchanged : HostCall GrantUpdate) host) := by
  have hinstalled : session.Installed
      ({ session with grants := grants }.installMap planned.1 planned.2) grants planned :=
    ⟨rfl, rfl, rfl, rfl⟩
  have hgranted : ∀ pushed : ℕ × Session,
      ({ session with grants := grants }.installMap planned.1 planned.2).SameNames pushed.2 →
      host.Granted peer session grants planned (host.put peer pushed) := fun pushed hsame ↦
    ⟨⟨pushed.2, get?_put_self _, hinstalled.sameNames hsame⟩, fun other hne ↦ get?_put_of_ne hne _⟩
  rw [Call.bind_apply, withSession_cases hsession]
  simp only [Call.bind_apply, Call.modify_apply, Outcome.ok_bind]
  rcases Session.pushFrames_cases frames
      (host.egressBytes, { session with grants := grants }.installMap planned.1 planned.2) with
    ⟨pushed, hpush, hsame⟩ | ⟨pushed, hpush, hsame, -, hfull⟩
  · rw [hpush, Outcome.ok_bind]
    exact ⟨_, hgranted pushed hsame, .inl ⟨_, rfl⟩⟩
  · rw [hpush, Outcome.err_bind]
    refine ⟨_, hgranted pushed hsame, .inr ⟨_, rfl, .inr ⟨hwidens, rfl, ?_⟩⟩⟩
    obtain ⟨hcount, hlast⟩ := deltaCount_of_numberFrames hframes
    have hlength := (Host.hasRoom_of_room hroom).count
    simp only [Session.installMap] at hfull
    simp only at hlength
    rcases hfull with hfull | ⟨hpositive, hfull⟩
    · omega
    · rw [hcount] at hpositive hfull
      have hlast := hlast hpositive
      omega

end Replies

theorem setGrants_cases (peer : PeerHandle) (requested : DisclosureGrants) (host : Host) :
    StopsOr host (fun outcome ↦ ∃ session grants planned,
      host.sessions.get? peer = some session ∧ normalizeGrants requested = .ok grants ∧
      planMap session.map session.nextNet grants host.history.world = .ok planned ∧
      host.GrantReply peer session grants planned outcome) (setGrants peer requested host) := by
  unfold setGrants checkOpen
  simp only [Call.bind_apply, Call.get_apply, Outcome.ok_bind]
  refine stopsOr_failIf fun _ ↦ stopsOr_okOr fun session hsession ↦
    stopsOr_ofResult fun grants hgrants ↦ stopsOr_ofResult fun planned hplan ↦ ?_
  by_cases hnarrows : isNarrowing session.grants grants = true
  · rw [if_pos hnarrows]
    by_cases hsnapshot : session.snapshot = true
    · rw [if_pos hsnapshot, Call.bind_apply]
      rcases stageSnapshot_cases hsession grants planned.1 planned.2 with ⟨error, herror⟩ |
        ⟨why, hfault⟩ | ⟨after, hafter, hgranted⟩
      · rw [herror]
        exact .inl ⟨error, rfl⟩
      · rw [hfault]
        exact .inr (.inl ⟨why, rfl⟩)
      · rw [hafter]
        exact stopsOr_of_reply ⟨session, grants, planned, hsession, hgrants, hplan, after, hgranted,
          .inl ⟨_, rfl⟩⟩
    · rw [if_neg hsnapshot]
      simp only [Call.bind_apply]
      refine stopsOr_sub fun _ ↦ ?_
      rw [Call.set_apply, Outcome.ok_bind]
      rw [Bool.not_eq_true] at hsnapshot
      rcases @narrowLane_cases host peer session grants planned hsnapshot hnarrows with
        hreply | hfault
      · exact stopsOr_of_reply ⟨session, grants, planned, hsession, hgrants, hplan, hreply⟩
      · exact .inr (.inl hfault)
  · rw [if_neg hnarrows]
    rw [Bool.not_eq_true] at hnarrows
    simp only [Call.bind_apply]
    refine stopsOr_ofResult fun frames hframes ↦ stopsOr_failIf fun hroom ↦ ?_
    rw [Bool.not_eq_false] at hroom
    exact stopsOr_of_reply ⟨session, grants, planned, hsession, hgrants, hplan,
      widen_cases hsession hnarrows hframes hroom⟩

/-! ### Sessions from their binding on -/

theorem identified_of_bind {actors : List EntityId} {grants : DisclosureGrants} {nowMs : ℕ}
    {snapshot : Bool} {handle : PeerHandle}
    (hbind : bind actors grants nowMs snapshot host = .ok handle after) :
    ∃ session, after.sessions.get? handle = some session ∧ session.Identified := by
  have hstops : StopsOr host (fun outcome : Outcome Host HostError PeerHandle ↦
      ∀ handle after, outcome = .ok handle after →
        ∃ session, after.sessions.get? handle = some session ∧ session.Identified)
      (bind actors grants nowMs snapshot host) := by
    unfold bind checkOpen checkTime
    simp only [Call.bind_apply, Call.get_apply, Outcome.ok_bind]
    refine stopsOr_failIf fun _ ↦ stopsOr_failIf fun _ ↦ stopsOr_ofResult fun control _ ↦
      stopsOr_ofResult fun granted _ ↦ ?_
    refine stopsOr_failIf fun _ ↦ stopsOr_failIf fun _ ↦ stopsOr_ofResult fun planned hplan ↦
      stopsOr_ofResult fun frames _ ↦ stopsOr_failIf fun _ ↦ stopsOr_of_reply ?_
    intro handle after hreply
    generalize hempty : host.freshSession host.nextHandle control granted snapshot = empty at hreply
    have hidentified : empty.Identified := by
      rw [← hempty]
      exact ⟨fun _ _ ↦ ⟨nofun, nofun⟩, nofun, nofun⟩
    have hinstalled : empty.Installed (empty.installMap planned.1 planned.2) granted planned := by
      refine ⟨?_, rfl, rfl, rfl⟩
      rw [← hempty]
      rfl
    have hmapped := (hinstalled.identified hidentified (by rw [← hempty]; exact hplan)).1
    unfold Call.focus at hreply
    simp only [Call.bind_apply] at hreply
    rcases Session.pushFrames_cases frames
        (host.egressBytes, empty.installMap planned.1 planned.2) with
      ⟨pushed, hpush, hsame⟩ | ⟨pushed, hpush, -⟩
    · rw [hpush] at hreply
      simp only [Outcome.ok_bind, Call.get_apply, Call.pure_apply, Call.modify_apply,
        Outcome.ok.injEq] at hreply
      obtain ⟨rfl, rfl⟩ := hreply
      exact ⟨pushed.2, BTreeMap.get?_insert_self .., hsame.identified hmapped⟩
    · rw [hpush] at hreply
      exact nomatch hreply
  rcases hstops with ⟨error, herror⟩ | ⟨why, hfault⟩ | hreply
  · exact nomatch hbind.symm.trans herror
  · exact nomatch hbind.symm.trans hfault
  · exact hreply handle after hbind

/-- One step of a host as a session sees it: its grants are replaced, whether that succeeds or
fails, or anything happens that leaves its names alone. -/
inductive GrantStep (peer : PeerHandle) (host after : Host) : Prop
  | grants (requested : DisclosureGrants)
      (hcall : (setGrants peer requested host).state? = some after)
  | elsewhere (hnames : ∀ session, host.sessions.get? peer = some session →
      ∃ later, after.sessions.get? peer = some later ∧ session.SameNames later)

theorem GrantStep.identified (hstep : GrantStep peer host after)
    (hsession : host.sessions.get? peer = some session) (hidentified : session.Identified) :
    ∃ later, after.sessions.get? peer = some later ∧ later.Identified ∧ session.Follows later := by
  cases hstep with
  | grants requested hcall =>
    rcases setGrants_cases peer requested host with ⟨error, herror⟩ | ⟨why, hfault⟩ |
      ⟨found, grants, planned, hfound, -, hplan, after', hgranted, hreply⟩
    · rw [herror] at hcall
      rw [← Option.some.inj hcall]
      exact ⟨session, hsession, hidentified, .refl session⟩
    · rw [hfault] at hcall
      exact nomatch hcall
    · have hsame : after' = after := by
        rcases hreply with ⟨update, heq⟩ | ⟨error, heq, -⟩
        · rw [heq] at hcall
          exact Option.some.inj hcall
        · rw [heq] at hcall
          exact Option.some.inj hcall
      rw [← Option.some.inj (hsession.symm.trans hfound)] at hplan hgranted
      rw [← hsame]
      obtain ⟨later, hlater, hinstalled⟩ := hgranted.session
      exact ⟨later, hlater, hinstalled.identified hidentified hplan⟩
  | elsewhere hnames =>
    obtain ⟨later, hlater, hsame⟩ := hnames session hsession
    exact ⟨later, hlater, hsame.identified hidentified, hsame.follows⟩

theorem identified_of_steps (hsession : host.sessions.get? peer = some session)
    (hidentified : session.Identified) (hsteps : Relation.ReflTransGen (GrantStep peer) host after) :
    ∃ later, after.sessions.get? peer = some later ∧ later.Identified ∧ session.Follows later := by
  induction hsteps with
  | refl => exact ⟨session, hsession, hidentified, .refl session⟩
  | tail _ hstep ih =>
    obtain ⟨middle, hmiddle, hmapped, hfollows⟩ := ih
    obtain ⟨later, hlater, hlast, hstepped⟩ := hstep.identified hmiddle hmapped
    exact ⟨later, hlater, hlast, hfollows.trans hstepped⟩

/-- A failing replacement of grants leaves the host as it was, but for the documented narrowing of a
session without snapshots and for a widening that runs out of ordinals. -/
theorem setGrants_eq_err {requested : DisclosureGrants} {error : HostError}
    (hfails : setGrants peer requested host = .err error after) :
    after = host ∨ ∃ session grants planned, host.sessions.get? peer = some session ∧
      normalizeGrants requested = .ok grants ∧
      planMap session.map session.nextNet grants host.history.world = .ok planned ∧
      host.FailsInstalled peer session grants planned error after := by
  rcases setGrants_cases peer requested host with ⟨other, herror⟩ | ⟨why, hfault⟩ |
    ⟨session, grants, planned, hsession, hgrants, hplan, state, -, ⟨update, heq⟩ |
      ⟨other, heq, hinstalled⟩⟩
  · left
    exact (Outcome.err.inj (hfails.symm.trans herror)).2
  · exact nomatch hfails.symm.trans hfault
  · exact nomatch hfails.symm.trans heq
  · right
    obtain ⟨rfl, rfl⟩ := Outcome.err.inj (hfails.symm.trans heq)
    exact ⟨session, grants, planned, hsession, hgrants, hplan, hinstalled⟩

/-- The map of a session and its inverse agree from its binding on; an id names one entity for as
long as the session lasts; a failing replacement of grants changes nothing, but for the documented
narrowing of a session without snapshots; and grants that do not narrow disclose all that the old
ones did. -/
theorem session_identities :
    (∀ (host after : Host) actors grants nowMs snapshot handle,
      bind actors grants nowMs snapshot host = .ok handle after →
        ∃ session, after.sessions.get? handle = some session ∧ session.Identified) ∧
    (∀ (peer : PeerHandle) (host : Host) (session : Session),
      host.sessions.get? peer = some session → session.Identified →
      ∀ after, Relation.ReflTransGen (GrantStep peer) host after →
        ∃ later, after.sessions.get? peer = some later ∧
          (∀ net entity, later.reverse.get? net = some entity ↔
            later.map.get? entity = some net) ∧
          later.Identified ∧
          ∀ one two net, session.map.get? one = some net → later.map.get? two = some net →
            one = two) ∧
    (∀ (peer : PeerHandle) (host : Host) requested error after,
      setGrants peer requested host = .err error after →
        after = host ∨ ∃ session grants planned, host.sessions.get? peer = some session ∧
          normalizeGrants requested = .ok grants ∧
          planMap session.map session.nextNet grants host.history.world = .ok planned ∧
          host.FailsInstalled peer session grants planned error after) ∧
    (∀ old new, isNarrowing old new = false → old.Within new) ∧
    (∀ (session : Session) grants planned world, session.Identified →
      planMap session.map session.nextNet grants world = .ok planned →
      isNarrowing session.grants grants = false →
        PeerView.Covers world session.view ⟨grants, planned.1⟩) := by
  refine ⟨fun host after actors grants nowMs snapshot handle hbind ↦ identified_of_bind hbind,
    fun peer host session hsession hidentified after hsteps ↦ ?_,
    fun peer host requested error after hfails ↦ setGrants_eq_err hfails,
    fun old new hwidens ↦ within_of_not_narrowing hwidens,
    fun session grants planned world hidentified hplan hwidens ↦
      covers_of_not_narrowing hidentified hplan hwidens⟩
  obtain ⟨later, hlater, hmapped, hfollows⟩ := identified_of_steps hsession hidentified hsteps
  exact ⟨later, hlater, hmapped.reverse, hmapped,
    fun one two net hone htwo ↦ hfollows.entity_eq hidentified hone htwo⟩

/-- Sight of one entity, with or without the ends of encounters. -/
def endGrants (encounterEnd : Bool) : DisclosureGrants where
  entities := [⟨⟨0, 1⟩, true, false, false, false, false, false, false, false, false, false⟩]
  abilities := []
  encounters := []
  turnRound := false
  encounterEnd := encounterEnd
  turnState := false

/-- A session that acknowledges nothing, with as much in its log as its caps allow. -/
def backlogged (host : Host) (handle : PeerHandle) : Session :=
  { host.freshSession handle [] (endGrants true) false with
    log := (List.range 128).map fun place ↦
      ⟨place + 1, some (place + 1), List.replicate 16384 0⟩
    logBytes := egressCaps.perPeerBytes
    nextEventSeq := 129
    nextOrdinal := 129 }

/-- A session without snapshots that has acknowledged everything, among eight backlogged ones. -/
def fullHost : Host :=
  let host := assemble ⟨.v2, 1⟩ (match (HistoryWorld.new 0).spawn ⟨⟩ with
    | .ok found => found.2
    | _ => HistoryWorld.new 0) 0
  let watcher := (host.freshSession 1 [] (endGrants true) false).installMap
    (BTreeMap.empty.insert ⟨0, 1⟩ 1) 2
  { host with
    sessions := (List.range' 2 8).foldl
      (fun sessions handle ↦ sessions.insert handle (host.backlogged handle))
      (BTreeMap.empty.insert 1 watcher)
    egressBytes := egressCaps.hostBytes }

/-- The narrowing of the first session fails with the new grants installed and the delivery reset,
on a host that counts the bytes of its logs and is within every cap. -/
theorem narrowing_without_room :
    (fullHost.sessions.values.map Session.logBytes).sum = fullHost.egressBytes ∧
    fullHost.egressBytes ≤ egressCaps.hostBytes ∧
    ∃ before after later,
      fullHost.sessions.get? 1 = some before ∧ before.Identified ∧
      setGrants 1 (endGrants false) fullHost = .err .queueFull after ∧
      after.sessions.get? 1 = some later ∧
      later.grants ≠ before.grants ∧ later.generation ≠ before.generation ∧
      later.resyncPending = true := by
  have hmap (entity : EntityId) (net : NetId) :
      (BTreeMap.empty.insert ⟨0, 1⟩ 1 : EntityMap).get? entity = some net ↔
        entity = ⟨0, 1⟩ ∧ net = 1 := by
    rw [BTreeMap.get?_insert, BTreeMap.get?_empty]
    split_ifs with hentity
    · rw [Option.some.injEq, and_iff_right hentity, eq_comm]
    · exact ⟨nofun, fun hboth ↦ absurd hboth.1 hentity⟩
  have hreverse (net : NetId) (entity : EntityId) :
      (BTreeMap.empty.insert 1 ⟨0, 1⟩ : BTreeMap NetId EntityId).get? net = some entity ↔
        net = 1 ∧ entity = ⟨0, 1⟩ := by
    rw [BTreeMap.get?_insert, BTreeMap.get?_empty]
    split_ifs with hnet
    · rw [Option.some.injEq, and_iff_right hnet, eq_comm]
    · exact ⟨nofun, fun hboth ↦ absurd hboth.1 hnet⟩
  have hrefused : (match setGrants 1 (endGrants false) fullHost with
      | .err .queueFull after => (after.sessions.get? 1).any fun later ↦
        decide (later.grants = endGrants false ∧ later.generation = 1 ∧ later.resyncPending = true)
      | _ => false) = true := by decide +kernel
  split at hrefused
  · rename_i after hfails
    obtain ⟨later, hlater, hreset⟩ := (Option.any_eq_true _ _).mp hrefused
    obtain ⟨hgrants, hgeneration, hpending⟩ := of_decide_eq_true hreset
    refine ⟨rfl, le_rfl, _, after, later, rfl, ⟨fun net entity ↦ ?_, fun entity net hget ↦ ?_,
      fun entity net hget ↦ ?_⟩, hfails, hlater, ?_, ?_, hpending⟩
    · exact ((hreverse net entity).trans and_comm).trans (hmap entity net).symm
    · rw [((hmap entity net).mp hget).2]
      decide
    · exact ⟨_, List.mem_singleton_self _, ((hmap entity net).mp hget).1.symm, rfl⟩
    · rw [hgrants]
      exact fun heq ↦ Bool.false_ne_true (congrArg DisclosureGrants.encounterEnd heq)
    · rw [hgeneration]
      decide
  · cases hrefused

end Host

end Crpg.Server
