import Crpg.Net.Resume

/-!
# Clients that resume over a lossy network

`crpg-net/src/resume.rs`. Any number of clients talk to one session. A client may send any request
and frames with any tag; the network keeps every message, so a message may be delivered late, more
than once or never. The host answers each delivered request under any decision and checks each
delivered frame; a client that finds an answer in order holds the fence it grants.

`Ordered` is the invariant: the current fence is the last one granted, no message or client is
ahead of it, and the confirmed fence is the highest tag that passed. Each step keeps it
(`Ordered.step`), so it holds in every state of every interleaving.
-/

set_option autoImplicit false

namespace Crpg.Net

open Crpg.Lib

/-! ### The system -/

/-- A session, its clients, and every message sent so far. `passed` lists the tags of the frames
that passed the fence, in order. -/
structure Exchange (ι : Type*) where
  fence : SessionFence
  requests : List (ι × ResumeRequest)
  results : List (ι × ResumeResult)
  frames : List ConnectionFence
  held : ι → Option ConnectionFence
  passed : List ConnectionFence

inductive ExchangeEvent (ι : Type*)
  /-- A client sends a request. -/
  | request (client : ι) (request : ResumeRequest)
  /-- The host answers a request that was sent, under its decision. -/
  | resolve (client : ι) (request : ResumeRequest) (decision : ResumeDecision)
  /-- A client receives an answer that was sent to it. -/
  | result (client : ι) (result : ResumeResult)
  /-- A client sends a frame. -/
  | send (tag : ConnectionFence)
  /-- The host checks a frame that was sent. -/
  | frame (tag : ConnectionFence)

namespace Exchange

variable {ι : Type*}

def start (fence : SessionFence) (first : ι → Bool) : Exchange ι :=
  ⟨fence, [], [], [], fun client ↦ if first client then some ConnectionFence.first else none, []⟩

/-- The fence an answer grants, if any. -/
def grantOf (message : ι × ResumeResult) : Option ConnectionFence :=
  match message.2 with
  | .accepted accepted => some accepted.granted
  | .rejected _ => none

def granted (exchange : Exchange ι) : List ConnectionFence := exchange.results.filterMap grantOf

/-- Takes a step of an interleaving; `none` where the message was never sent. -/
def step [DecidableEq ι] (exchange : Exchange ι) : ExchangeEvent ι → Option (Exchange ι)
  | .request client request =>
    some { exchange with requests := exchange.requests ++ [(client, request)] }
  | .resolve client request decision =>
    if (client, request) ∈ exchange.requests then
      match exchange.fence.resolve request decision with
      | .error _ => some exchange
      | .ok (result, fence) =>
        some { exchange with fence := fence, results := exchange.results ++ [(client, result)] }
    else none
  | .result client result =>
    if (client, result) ∈ exchange.results then
      match exchange.held client, result with
      | some presented, .accepted accepted =>
        match SessionFence.checkResult exchange.fence.epoch presented result with
        | .error _ => some exchange
        | .ok () =>
          some { exchange with
            held := Function.update exchange.held client (some accepted.granted) }
      | _, _ => some exchange
    else none
  | .send tag => some { exchange with frames := exchange.frames ++ [tag] }
  | .frame tag =>
    if tag ∈ exchange.frames then
      match exchange.fence.checkFrame tag with
      | .error _ => some exchange
      | .ok fence => some { exchange with fence := fence, passed := exchange.passed ++ [tag] }
    else none

/-! ### The invariant -/

structure Ordered (epoch : SessionEpoch) (maxFence : ℕ) (exchange : Exchange ι) : Prop where
  epoch : exchange.fence.epoch = epoch
  limit : exchange.fence.maxFence = maxFence
  confirmed : exchange.fence.confirmed ≤ exchange.fence.current
  current : (exchange.fence.current : ℕ) ≤ maxFence
  granted : (ConnectionFence.first :: exchange.granted).Pairwise (· < ·)
  newest : ∀ fence ∈ ConnectionFence.first :: exchange.granted, fence ≤ exchange.fence.current
  last : (ConnectionFence.first :: exchange.granted).getLast? = some exchange.fence.current
  held : ∀ client fence, exchange.held client = some fence → fence ≤ exchange.fence.current
  passed : exchange.passed.Pairwise (· ≤ ·)
  highest : ∀ tag ∈ exchange.passed, tag ≤ exchange.fence.confirmed
  reached : exchange.fence.confirmed = ConnectionFence.first ∨
    exchange.fence.confirmed ∈ exchange.passed

variable {epoch : SessionEpoch} {maxFence : ℕ} {exchange next : Exchange ι}

theorem ordered_start (hlimit : 2 ≤ maxFence) (first : ι → Bool) : Ordered epoch maxFence
      (start { SessionFence.new epoch with maxFence := maxFence } first) := by
  refine ⟨rfl, rfl, le_refl _, ?_, ?_, ?_, rfl, ?_, List.Pairwise.nil, ?_, Or.inl rfl⟩
  · exact le_trans one_le_two hlimit
  · exact List.pairwise_singleton _ _
  · simp [granted, start, SessionFence.new]
  · intro client fence hheld
    simp only [start] at hheld
    split_ifs at hheld
    rw [Option.some.injEq] at hheld
    exact le_of_eq hheld.symm
  · simp [start]

section

variable (hordered : exchange.Ordered epoch maxFence)
include hordered

/-- Answering a request keeps the order: a grant lies above every fence so far. -/
theorem Ordered.resolve {client : ι} {request : ResumeRequest} {decision : ResumeDecision}
    {result : ResumeResult} {fence : SessionFence}
    (hresolve : exchange.fence.resolve request decision = .ok (result, fence)) :
    Ordered epoch maxFence
      { exchange with fence := fence, results := exchange.results ++ [(client, result)] } := by
  obtain ⟨granted, hgranted, hcases⟩ := SessionFence.resolve_eq_ok hresolve
  rcases hcases with ⟨reason, rfl, rfl⟩ | ⟨progress, rfl, rfl⟩
  · have hsame : Exchange.granted { exchange with results := exchange.results ++
        [(client, .rejected ⟨exchange.fence.epoch, reason⟩)] } = exchange.granted := by
      simp [Exchange.granted, grantOf]
    exact ⟨hordered.epoch, hordered.limit, hordered.confirmed, hordered.current,
      hsame ▸ hordered.granted, hsame ▸ hordered.newest, hsame ▸ hordered.last, hordered.held,
      hordered.passed, hordered.highest, hordered.reached⟩
  · obtain ⟨-, -, -, hroom, hnext⟩ := SessionFence.checkRequest_eq_ok_iff.mp hgranted
    have habove : exchange.fence.current < granted := by
      rw [hnext]
      exact PNat.lt_add_right _ _
    have hadded : Exchange.granted { exchange with
        fence := { exchange.fence with current := granted }
        results := exchange.results ++
          [(client, .accepted ⟨exchange.fence.epoch, granted, progress⟩)] } =
        exchange.granted ++ [granted] := by
      simp [Exchange.granted, grantOf]
    refine ⟨hordered.epoch, hordered.limit, hordered.confirmed.trans (le_of_lt habove), ?_, ?_, ?_, ?_,
      fun holder fence hheld ↦ (hordered.held holder fence hheld).trans (le_of_lt habove),
      hordered.passed, hordered.highest, hordered.reached⟩
    · have hbelow := hordered.current
      have hvalue : (granted : ℕ) = exchange.fence.current + 1 := by
        rw [hnext]
        rfl
      rw [hordered.limit] at hroom
      dsimp only
      omega
    · rw [hadded, ← List.cons_append]
      refine List.pairwise_append.mpr ⟨hordered.granted, List.pairwise_singleton _ _, ?_⟩
      intro fence hfence added hmem
      rw [List.mem_singleton] at hmem
      rw [hmem]
      exact lt_of_le_of_lt (hordered.newest fence hfence) habove
    · rw [hadded, ← List.cons_append]
      intro fence hfence
      rcases List.mem_append.mp hfence with hold | hnew
      · exact (hordered.newest fence hold).trans (le_of_lt habove)
      · rw [List.mem_singleton] at hnew
        exact le_of_eq hnew
    · rw [hadded, ← List.cons_append, List.getLast?_append]
      rfl

theorem Ordered.frame {tag : ConnectionFence} {fence : SessionFence}
    (hframe : exchange.fence.checkFrame tag = .ok fence) : Ordered epoch maxFence
      { exchange with fence := fence, passed := exchange.passed ++ [tag] } := by
  obtain ⟨rfl, rfl⟩ := SessionFence.checkFrame_eq_ok_iff.mp hframe
  refine ⟨hordered.epoch, hordered.limit, le_refl _, hordered.current, hordered.granted,
    hordered.newest, hordered.last, hordered.held, ?_, ?_, Or.inr (by simp)⟩
  · refine List.pairwise_append.mpr ⟨hordered.passed, List.pairwise_singleton _ _, ?_⟩
    intro tag htag added hmem
    rw [List.mem_singleton] at hmem
    rw [hmem]
    exact (hordered.highest tag htag).trans hordered.confirmed
  · intro tag htag
    rcases List.mem_append.mp htag with hold | hnew
    · exact (hordered.highest tag hold).trans hordered.confirmed
    · rw [List.mem_singleton] at hnew
      exact le_of_eq hnew

/-- A granted fence that a client adopts was sent, so it lies under the current one. -/
theorem Ordered.result [DecidableEq ι] {client : ι} {accepted : ResumeAccepted}
    (hsent : (client, .accepted accepted) ∈ exchange.results) :
    Ordered epoch maxFence { exchange with
      held := Function.update exchange.held client (some accepted.granted) } := by
  refine ⟨hordered.epoch, hordered.limit, hordered.confirmed, hordered.current, hordered.granted,
    hordered.newest, hordered.last, fun holder fence hheld ↦ ?_, hordered.passed,
    hordered.highest, hordered.reached⟩
  dsimp only at hheld
  by_cases hsame : holder = client
  · subst hsame
    rw [Function.update_self, Option.some.injEq] at hheld
    refine hordered.newest fence (List.mem_cons_of_mem _ ?_)
    exact List.mem_filterMap.mpr ⟨_, hsent, congrArg some hheld⟩
  · rw [Function.update_of_ne hsame] at hheld
    exact hordered.held holder fence hheld

theorem Ordered.step [DecidableEq ι] {event : ExchangeEvent ι}
    (hstep : exchange.step event = some next) : next.Ordered epoch maxFence := by
  have hquiet (other : Exchange ι) (hfence : other.fence = exchange.fence)
      (hresults : other.results = exchange.results) (hheld : other.held = exchange.held)
      (hpassed : other.passed = exchange.passed) : other.Ordered epoch maxFence := by
    have hgranted : other.granted = exchange.granted := by
      unfold Exchange.granted
      rw [hresults]
    obtain ⟨_, _, _, _, _, _, _, _, _, _, _⟩ := hordered
    constructor <;> simp only [hfence, hgranted, hheld, hpassed] <;> assumption
  cases event with
  | request client request =>
    simp only [Exchange.step, Option.some.injEq] at hstep
    exact hquiet next (by rw [← hstep]) (by rw [← hstep]) (by rw [← hstep]) (by rw [← hstep])
  | send tag =>
    simp only [Exchange.step, Option.some.injEq] at hstep
    exact hquiet next (by rw [← hstep]) (by rw [← hstep]) (by rw [← hstep]) (by rw [← hstep])
  | resolve client request decision =>
    simp only [Exchange.step] at hstep
    split_ifs at hstep
    split at hstep
    · exact Option.some.inj hstep ▸ hordered
    · rename_i result fence hresolve
      exact Option.some.inj hstep ▸ hordered.resolve hresolve
  | result client result =>
    simp only [Exchange.step] at hstep
    split_ifs at hstep with hsent
    split at hstep
    · split at hstep
      · exact Option.some.inj hstep ▸ hordered
      · exact Option.some.inj hstep ▸ hordered.result hsent
    · exact Option.some.inj hstep ▸ hordered
  | frame tag =>
    simp only [Exchange.step] at hstep
    split_ifs at hstep
    split at hstep
    · exact Option.some.inj hstep ▸ hordered
    · rename_i fence hframe
      exact Option.some.inj hstep ▸ hordered.frame hframe

end

/-! ### What holds in every state -/

/-- What the fence of a session upholds in a state of an interleaving. -/
structure Fenced (epoch : SessionEpoch) (maxFence : ℕ) (exchange : Exchange ι) : Prop where
  /-- Granted fences ascend strictly above the first, up to the limit. -/
  granted : (ConnectionFence.first :: exchange.granted).Pairwise (· < ·) ∧
    ∀ fence ∈ exchange.granted, (fence : ℕ) ≤ maxFence
  /-- Only the newest granted fence passes. -/
  single : ∀ tag, (∃ fence, exchange.fence.checkFrame tag = .ok fence) ↔
    (ConnectionFence.first :: exchange.granted).getLast? = some tag
  /-- After a frame has passed, no frame on a lower fence has passed or passes. -/
  passed : exchange.passed.Pairwise (· ≤ ·) ∧
    ∀ tag ∈ exchange.passed, ∀ lower < tag, exchange.fence.checkFrame lower = .error .fenced
  /-- A client that holds a fence, while no frame on a higher one has passed and the limit is not
  reached, can resume with it: the host may accept, the answer grants the fence that then passes,
  and the client finds it in order. -/
  recovers : ∀ client presented, exchange.held client = some presented →
    (∀ tag ∈ exchange.passed, tag ≤ presented) → (exchange.fence.current : ℕ) ≠ maxFence →
    ∀ proof claims progress,
      checkLanes (progress.map fun entry ↦ (entry.lane, entry.finalizedThrough)) = .ok () →
      ∃ granted fence, presented < granted ∧
        exchange.fence.resolve ⟨epoch, presented, proof, claims⟩ (.accept progress) =
          .ok (.accepted ⟨epoch, granted, progress⟩, fence) ∧
        SessionFence.checkResult epoch presented (.accepted ⟨epoch, granted, progress⟩) = .ok () ∧
        ∃ confirmed, fence.checkFrame granted = .ok confirmed

theorem Ordered.presentable (hordered : exchange.Ordered epoch maxFence) {client : ι}
    {presented : ConnectionFence} (hheld : exchange.held client = some presented)
    (hpassed : ∀ tag ∈ exchange.passed, tag ≤ presented) :
    exchange.fence.confirmed ≤ presented ∧ presented ≤ exchange.fence.current := by
  refine ⟨?_, hordered.held client presented hheld⟩
  rcases hordered.reached with hfirst | hreached
  · rw [hfirst]
    exact one_le
  · exact hpassed _ hreached

theorem Ordered.fenced (hordered : exchange.Ordered epoch maxFence) :
    exchange.Fenced epoch maxFence := by
  refine ⟨⟨hordered.granted, fun fence hfence ↦ ?_⟩, fun tag ↦ ?_,
    ⟨hordered.passed, fun tag htag lower hlower ↦ ?_⟩, ?_⟩
  · have hnewest := hordered.newest fence (List.mem_cons_of_mem _ hfence)
    exact (PNat.coe_le_coe _ _ |>.mpr hnewest).trans hordered.current
  · rw [hordered.last, Option.some.injEq]
    simp only [SessionFence.checkFrame_eq_ok_iff, exists_eq_right]
    exact eq_comm
  · have hbelow : lower < exchange.fence.current :=
      lt_of_lt_of_le hlower ((hordered.highest tag htag).trans hordered.confirmed)
    rw [SessionFence.checkFrame, if_neg (ne_of_lt hbelow), if_pos hbelow]
  · intro client presented hheld hpassed hroom proof claims progress hlanes
    obtain ⟨hconfirmed, hcurrent⟩ := hordered.presentable hheld hpassed
    have hrequest : exchange.fence.checkRequest ⟨epoch, presented, proof, claims⟩ =
        .ok (exchange.fence.current + 1) :=
      SessionFence.checkRequest_eq_ok_iff.mpr
        ⟨hordered.epoch.symm, hconfirmed, hcurrent, hordered.limit ▸ hroom, rfl⟩
    have habove : presented < exchange.fence.current + 1 := PNat.lt_add_one_iff.mpr hcurrent
    have hresolve := SessionFence.resolve_accept hrequest hlanes
    rw [hordered.epoch] at hresolve
    refine ⟨_, _, habove, hresolve, ?_, _, SessionFence.checkFrame_eq_ok_iff.mpr ⟨rfl, rfl⟩⟩
    simp only [SessionFence.checkResult, ResumeResult.epoch, ne_eq, not_true_eq_false, if_false,
      if_neg (not_le.mpr habove)]

/-- In every interleaving of requests, answers and frames, with any of them lost, late or
repeated, the fence of a session is upheld. -/
theorem fenced_of_run [DecidableEq ι] {fence : SessionFence} (first : ι → Bool)
    (hfence : SessionFence.withMax epoch maxFence = .ok fence) {events : List (ExchangeEvent ι)}
    (hrun : run step (start fence first) events = some exchange) :
    exchange.Fenced epoch maxFence := by
  unfold SessionFence.withMax at hfence
  split_ifs at hfence with hlimit
  rw [Except.ok.injEq] at hfence
  subst hfence
  have hstart : Ordered epoch maxFence
      (start { SessionFence.new epoch with maxFence := maxFence } first) :=
    ordered_start (not_lt.mp hlimit) first
  exact (run_preserves (fun _ _ _ hordered hstep ↦ hordered.step hstep) hstart hrun).fenced

/-! ### A lost answer -/

def firstRequest : ResumeRequest :=
  ⟨Vector.replicate 16 0, ConnectionFence.first,
    ⟨List.replicate 16 0, by decide, by decide⟩, []⟩

/-- A resume is accepted, its answer is lost, and the request is sent and answered again; then the
second answer arrives, late, after the first one. -/
def lostAnswer : List (ExchangeEvent Unit) :=
  [.request () firstRequest, .resolve () firstRequest (.accept [⟨0, 0⟩]),
    .resolve () firstRequest (.accept [⟨0, 0⟩]),
    .result () (.accepted ⟨Vector.replicate 16 0, 3, [⟨0, 0⟩]⟩),
    .result () (.accepted ⟨Vector.replicate 16 0, 2, [⟨0, 0⟩]⟩), .send 3, .frame 3]

/-- The fence is upheld over it, and the client ends on the newest fence. -/
theorem fenced_of_run_lostAnswer :
    ∃ fence exchange, SessionFence.withMax (Vector.replicate 16 0) (2 ^ 64 - 1) = .ok fence ∧
      run step (start fence fun _ ↦ true) lostAnswer = some exchange ∧
      exchange.held () = some 3 ∧ exchange.passed = [3] ∧
      exchange.Fenced (Vector.replicate 16 0) (2 ^ 64 - 1) := by
  have hfence : SessionFence.withMax (Vector.replicate 16 0) (2 ^ 64 - 1) =
      .ok (SessionFence.new (Vector.replicate 16 0)) := rfl
  have hrun : (run step (start (SessionFence.new (Vector.replicate 16 0)) fun _ ↦ true)
      lostAnswer).isSome := by decide +kernel
  obtain ⟨exchange, hexchange⟩ := Option.isSome_iff_exists.mp hrun
  have hheld : (run step (start (SessionFence.new (Vector.replicate 16 0)) fun _ ↦ true)
      lostAnswer).map (fun exchange ↦ (exchange.held (), exchange.passed)) =
      some (some 3, [3]) := by decide +kernel
  rw [hexchange, Option.map_some, Option.some.injEq, Prod.mk.injEq] at hheld
  exact ⟨_, exchange, hfence, hexchange, hheld.1, hheld.2, fenced_of_run _ hfence hexchange⟩

/-- At the grant limit a client whose answer was lost cannot resume, although no frame has passed
on a higher fence. -/
theorem lost_answer_at_limit :
    (SessionFence.withMax (Vector.replicate 16 0) 2).toOption.bind (fun fence ↦
      (run step (start fence fun _ ↦ true)
        [.request () firstRequest, .resolve () firstRequest (.accept [⟨0, 0⟩])]).map
          fun exchange ↦ (exchange.held (), exchange.passed,
            exchange.fence.checkRequest firstRequest)) =
      some (some firstRequest.fence, [], .error .fenceExhausted) := by
  decide +kernel

end Exchange

end Crpg.Net
