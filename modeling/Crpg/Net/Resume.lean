import Crpg.Net.Protocol

/-!
# The connection fence of a session

`crpg-net/src/resume.rs`, with the messages of `crpg-net/src/protocol_resume.rs`. A session counts
its connections: the first holds fence 1, each accepted resume grants the next value. A
`SessionFence` keeps the current fence, the highest fence on which a frame has been checked, and a
limit; frames pass on the current fence only, and requests may present any fence from the confirmed
one to the current one.

A call that fails leaves the fence as it was: `checkFrame` and `resolve` return the new fence only
with their success.
-/

set_option autoImplicit false

namespace Crpg.Net

/-! ### The messages -/

def minResumeProofBytes : ℕ := 16

def maxResumeProofBytes : ℕ := 128

/-- The most lane entries of one list. -/
def maxResumeLanes : ℕ := 4

/-- A connection generation: a nonzero `u64`. -/
abbrev ConnectionFence := ℕ+

def ConnectionFence.first : ConnectionFence := 1

def ConnectionFence.new (raw : ℕ) : Option ConnectionFence :=
  if hraw : 0 < raw then some ⟨raw, hraw⟩ else none

structure ResumeProof where
  bytes : List UInt8
  long : minResumeProofBytes ≤ bytes.length
  short : bytes.length ≤ maxResumeProofBytes
deriving DecidableEq

def ResumeProof.new (bytes : List UInt8) : Except CodecError ResumeProof :=
  if hlong : bytes.length < minResumeProofBytes then .error .malformed
  else if hshort : maxResumeProofBytes < bytes.length then .error .limitExceeded
  else .ok ⟨bytes, not_lt.mp hlong, not_lt.mp hshort⟩

/-- The highest sequence on a lane a client holds a receipt for. -/
structure LaneClaim where
  lane : ℕ
  receiptedThrough : ℕ
deriving DecidableEq

/-- The highest sequence on a lane the host finalized. -/
structure LaneProgress where
  lane : ℕ
  finalizedThrough : ℕ
deriving DecidableEq

structure ResumeRequest where
  epoch : SessionEpoch
  fence : ConnectionFence
  proof : ResumeProof
  claims : List LaneClaim
deriving DecidableEq

/-- Why a resume is rejected. -/
inductive ResumeRejection
  | denied
  | busy
deriving DecidableEq

structure ResumeAccepted where
  epoch : SessionEpoch
  granted : ConnectionFence
  progress : List LaneProgress
deriving DecidableEq

structure ResumeRejected where
  epoch : SessionEpoch
  reason : ResumeRejection
deriving DecidableEq

/-- The answer to a request. -/
inductive ResumeResult
  | accepted (accepted : ResumeAccepted)
  | rejected (rejected : ResumeRejected)
deriving DecidableEq

def ResumeResult.epoch : ResumeResult → SessionEpoch
  | .accepted answer => answer.epoch
  | .rejected answer => answer.epoch

/-- The loop of `check_lanes` after a lane. -/
def checkLaneEntries (previous : Option ℕ) : List (ℕ × ℕ) → Except CodecError Unit
  | [] => .ok ()
  | (lane, through) :: rest =>
    if lane ≠ laneCombat then .error .unknownMessage
    else if previous.any (lane ≤ ·) then .error .malformed
    else if seqLast < through then .error .malformed
    else checkLaneEntries (some lane) rest

def checkLanes (entries : List (ℕ × ℕ)) : Except CodecError Unit :=
  if entries.length = 0 then .error .malformed
  else if maxResumeLanes < entries.length then .error .limitExceeded
  else checkLaneEntries none entries

/-! ### The fence -/

/-- The host's verdict on a request. -/
inductive ResumeDecision
  | accept (progress : List LaneProgress)
  | reject (reason : ResumeRejection)

/-- Why a fence call refuses. -/
inductive ResumeError
  | wrongEpoch
  | unknownFence
  | staleFence
  | fenced
  | fenceExhausted
  | invalidProgress
  | invalidLimit
deriving DecidableEq

structure SessionFence where
  epoch : SessionEpoch
  current : ConnectionFence
  confirmed : ConnectionFence
  maxFence : ℕ
deriving DecidableEq

namespace SessionFence

def new (epoch : SessionEpoch) : SessionFence :=
  ⟨epoch, ConnectionFence.first, ConnectionFence.first, 2 ^ 64 - 1⟩

def withMax (epoch : SessionEpoch) (maxFence : ℕ) : Except ResumeError SessionFence :=
  if maxFence < 2 then .error .invalidLimit else .ok { new epoch with maxFence := maxFence }

def checkFrame (fence : SessionFence) (tag : ConnectionFence) : Except ResumeError SessionFence :=
  if tag = fence.current then .ok { fence with confirmed := fence.current }
  else if tag < fence.current then .error .fenced
  else .error .unknownFence

def checkRequest (fence : SessionFence) (request : ResumeRequest) :
    Except ResumeError ConnectionFence :=
  if request.epoch ≠ fence.epoch then .error .wrongEpoch
  else if fence.current < request.fence then .error .unknownFence
  else if request.fence < fence.confirmed then .error .staleFence
  else if (fence.current : ℕ) = fence.maxFence then .error .fenceExhausted
  else
    match ConnectionFence.new (fence.current + 1) with
    | none => .error .fenceExhausted
    | some granted => .ok granted

/-- Answers a request under the host's decision. -/
def resolve (fence : SessionFence) (request : ResumeRequest) (decision : ResumeDecision) :
    Except ResumeError (ResumeResult × SessionFence) :=
  match fence.checkRequest request with
  | .error refusal => .error refusal
  | .ok granted =>
    match decision with
    | .reject reason => .ok (.rejected ⟨fence.epoch, reason⟩, fence)
    | .accept progress =>
      match checkLanes (progress.map fun entry ↦ (entry.lane, entry.finalizedThrough)) with
      | .error _ => .error .invalidProgress
      | .ok () =>
        .ok (.accepted ⟨fence.epoch, granted, progress⟩, { fence with current := granted })

/-- The client's check that an answer belongs to a resume presented at a fence. -/
def checkResult (epoch : SessionEpoch) (presented : ConnectionFence) (result : ResumeResult) :
    Except ResumeError Unit :=
  if result.epoch ≠ epoch then .error .wrongEpoch
  else
    match result with
    | .accepted accepted =>
      if accepted.granted ≤ presented then .error .staleFence else .ok ()
    | .rejected _ => .ok ()

/-! ### What each call accepts -/

variable {fence next : SessionFence}

theorem checkFrame_eq_ok_iff {tag : ConnectionFence} : fence.checkFrame tag = .ok next ↔
      tag = fence.current ∧ next = { fence with confirmed := fence.current } := by
  unfold checkFrame
  split_ifs with hcurrent hbelow
  · rw [Except.ok.injEq, eq_comm]
    exact (and_iff_right hcurrent).symm
  · simp [hcurrent]
  · simp [hcurrent]

/-- A request is granted the next fence exactly when it names the session, presents a fence between
the confirmed and the current one, and the limit is not reached. -/
theorem checkRequest_eq_ok_iff {request : ResumeRequest} {granted : ConnectionFence} :
    fence.checkRequest request = .ok granted ↔
      request.epoch = fence.epoch ∧ fence.confirmed ≤ request.fence ∧
        request.fence ≤ fence.current ∧ (fence.current : ℕ) ≠ fence.maxFence ∧
        granted = fence.current + 1 := by
  unfold checkRequest
  have hnew : ConnectionFence.new (fence.current + 1) = some (fence.current + 1) := rfl
  rw [hnew]
  split_ifs with hepoch hunknown hstale hlimit
  · simp [hepoch]
  · simp [not_le.mpr hunknown]
  · simp [not_le.mpr hstale]
  · simp [hlimit]
  · rw [Except.ok.injEq]
    rw [not_not] at hepoch
    simp only [hepoch, not_lt.mp hunknown, not_lt.mp hstale, ne_eq, hlimit, not_false_eq_true,
      true_and]
    exact eq_comm

theorem resolve_eq_ok {request : ResumeRequest} {decision : ResumeDecision} {result : ResumeResult}
    (hresolve : fence.resolve request decision = .ok (result, next)) :
    ∃ granted, fence.checkRequest request = .ok granted ∧
      ((∃ reason, result = .rejected ⟨fence.epoch, reason⟩ ∧ next = fence) ∨
        ∃ progress, result = .accepted ⟨fence.epoch, granted, progress⟩ ∧
          next = { fence with current := granted }) := by
  unfold resolve at hresolve
  split at hresolve
  · simp at hresolve
  rename_i granted hgranted
  refine ⟨granted, hgranted, ?_⟩
  cases decision with
  | reject reason =>
    simp only [Except.ok.injEq, Prod.mk.injEq] at hresolve
    exact Or.inl ⟨reason, hresolve.1.symm, hresolve.2.symm⟩
  | accept progress =>
    dsimp only at hresolve
    split at hresolve
    · simp at hresolve
    · simp only [Except.ok.injEq, Prod.mk.injEq] at hresolve
      exact Or.inr ⟨progress, hresolve.1.symm, hresolve.2.symm⟩

theorem resolve_accept {request : ResumeRequest} {granted : ConnectionFence}
    (hgranted : fence.checkRequest request = .ok granted) {progress : List LaneProgress}
    (hlanes : checkLanes (progress.map fun entry ↦ (entry.lane, entry.finalizedThrough)) = .ok ()) :
    fence.resolve request (.accept progress) =
      .ok (.accepted ⟨fence.epoch, granted, progress⟩, { fence with current := granted }) := by
  simp only [resolve, hgranted, hlanes]

end SessionFence

end Crpg.Net
