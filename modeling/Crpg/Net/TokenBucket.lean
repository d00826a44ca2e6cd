import Mathlib.Algebra.BigOperators.Ring.List
import Crpg.Net.Transport

/-!
# Token buckets

The credit of a bucket is capped, and its sums and products saturate at 64 bits. Neither breaks the
accounting: the balance after idle calls depends on the last watermark only, and what is granted
while the watermark crosses a window is paid by one full bucket and the refill of the window. The
watermark is the greatest time seen so far. Times a caller names behind it are not measured, so
they bound nothing.
-/

set_option autoImplicit false

namespace Crpg.Net

open Crpg.Core

namespace TokenBucket

/-- One call: its time and the amount it asks for. -/
structure Spend where
  nowMs : ℕ
  amount : ℕ
deriving DecidableEq

structure Grant where
  nowMs : ℕ
  watermark : ℕ
  amount : ℕ
deriving DecidableEq

def after (bucket : TokenBucket) : List Spend → TokenBucket
  | [] => bucket
  | call :: rest => (bucket.consume call.nowMs call.amount).2.after rest

def grants (bucket : TokenBucket) : List Spend → List Grant
  | [] => []
  | call :: rest =>
    let step := bucket.consume call.nowMs call.amount
    if step.1 then ⟨call.nowMs, step.2.lastMs, call.amount⟩ :: step.2.grants rest
    else step.2.grants rest

/-- Calls that fail or ask for nothing. -/
def Idle (bucket : TokenBucket) : List Spend → Prop
  | [] => True
  | call :: rest =>
    ((bucket.consume call.nowMs call.amount).1 = false ∨ call.amount = 0) ∧
      (bucket.consume call.nowMs call.amount).2.Idle rest

/-- The greatest time seen after calls. -/
def watermark (last : ℕ) (calls : List Spend) : ℕ := (calls.map Spend.nowMs).foldl max last

/-- What a grant takes, in thousandths of a token. -/
def Grant.charge (grant : Grant) : ℕ := saturatingMul grant.amount 1000

/-- What grants inside a window of watermarks take. -/
def chargedIn (first last : ℕ) (granted : List Grant) : ℕ :=
  ((granted.filter fun grant ↦ first ≤ grant.watermark ∧ grant.watermark ≤ last).map
    Grant.charge).sum

/-- A balance within a capacity that fits 64 bits. -/
structure Sound (bucket : TokenBucket) : Prop where
  available : bucket.availableMt ≤ bucket.capacityMt
  capacity : bucket.capacityMt ≤ u64Max

/-! ### One call -/

/-- The balance after the credit of a time. -/
def accrued (bucket : TokenBucket) (nowMs : ℕ) : ℕ :=
  min bucket.capacityMt (bucket.availableMt + (nowMs - bucket.lastMs) * bucket.refillMtPerMs)

theorem new_sound (burst perSec : ℕ) : (new burst perSec).Sound := ⟨le_rfl, min_le_left _ _⟩

variable {bucket : TokenBucket}

/-- Saturation is not seen: the capacity is reached first. -/
theorem consume_eq (hsound : bucket.Sound) (nowMs amount : ℕ) : bucket.consume nowMs amount =
      if saturatingMul amount 1000 ≤ bucket.accrued nowMs then (true, { bucket with
          availableMt := bucket.accrued nowMs - saturatingMul amount 1000
          lastMs := max bucket.lastMs nowMs })
      else (false, { bucket with
        availableMt := bucket.accrued nowMs, lastMs := max bucket.lastMs nowMs }) := by
  have hcapacity := hsound.capacity
  have haccrued : min (saturatingAdd u64Max bucket.availableMt
      (saturatingMul (nowMs - bucket.lastMs) bucket.refillMtPerMs)) bucket.capacityMt =
        bucket.accrued nowMs := by
    unfold saturatingAdd saturatingMul accrued
    generalize (nowMs - bucket.lastMs) * bucket.refillMtPerMs = credit
    omega
  unfold consume
  dsimp only
  rw [haccrued]

/-- What one call does: the watermark moves forward, the credit is capped, and a granted call takes
its charge. -/
theorem consume_spec (hsound : bucket.Sound) (nowMs amount : ℕ) :
    ∃ left, (bucket.consume nowMs amount).2 =
        { bucket with availableMt := left, lastMs := max bucket.lastMs nowMs } ∧
      ((bucket.consume nowMs amount).1 = true ∧
          left + saturatingMul amount 1000 = bucket.accrued nowMs ∨
        (bucket.consume nowMs amount).1 = false ∧ left = bucket.accrued nowMs) := by
  rw [consume_eq hsound]
  split_ifs with hneed
  · exact ⟨_, rfl, .inl ⟨rfl, Nat.sub_add_cancel hneed⟩⟩
  · exact ⟨_, rfl, .inr ⟨rfl, rfl⟩⟩

theorem consume_sound (hsound : bucket.Sound) (nowMs amount : ℕ) :
    (bucket.consume nowMs amount).2.Sound := by
  obtain ⟨left, hafter, hleft⟩ := consume_spec hsound nowMs amount
  have hcap : bucket.accrued nowMs ≤ bucket.capacityMt := min_le_left _ _
  rw [hafter]
  refine ⟨?_, hsound.capacity⟩
  show left ≤ bucket.capacityMt
  omega

theorem after_sound (hsound : bucket.Sound) (calls : List Spend) : (bucket.after calls).Sound := by
  induction calls generalizing bucket with
  | nil => exact hsound
  | cons call rest ih => exact ih (consume_sound hsound call.nowMs call.amount)

theorem after_append (first second : List Spend) :
    bucket.after (first ++ second) = (bucket.after first).after second := by
  induction first generalizing bucket with
  | nil => rfl
  | cons call rest ih => exact ih

/-- A call that fails or asks for nothing only accrues. -/
theorem consume_idle (hsound : bucket.Sound) {nowMs amount : ℕ}
    (hidle : (bucket.consume nowMs amount).1 = false ∨ amount = 0) :
    (bucket.consume nowMs amount).2 = { bucket with
      availableMt := bucket.accrued nowMs, lastMs := max bucket.lastMs nowMs } := by
  obtain ⟨left, hafter, hleft⟩ := consume_spec hsound nowMs amount
  have haccrued : left = bucket.accrued nowMs := by
    rcases hidle with hfail | rfl
    · rcases hleft with ⟨hok, -⟩ | ⟨-, hleft⟩
      · rw [hok] at hfail
        cases hfail
      · exact hleft
    · rw [saturatingMul, Nat.zero_mul, Nat.min_zero] at hleft
      omega
  rw [hafter, haccrued]

/-! ### Idle calls -/

theorem le_watermark (last : ℕ) (calls : List Spend) : last ≤ watermark last calls := by
  induction calls generalizing last with
  | nil => exact le_rfl
  | cons call rest ih => exact (le_max_left last call.nowMs).trans (ih _)

/-- However a stretch of time is split, idle calls credit it as one call does. -/
theorem after_idle (hsound : bucket.Sound) {calls : List Spend} (hidle : bucket.Idle calls) :
    bucket.after calls = (bucket.consume (watermark bucket.lastMs calls) 0).2 := by
  rw [consume_idle hsound (.inr rfl)]
  induction calls generalizing bucket with
  | nil =>
    have havailable := hsound.available
    simp [after, accrued, watermark, havailable]
  | cons call rest ih =>
    have hrest := ih (consume_sound hsound call.nowMs call.amount) hidle.2
    rw [consume_idle hsound hidle.1] at hrest
    have hmark := le_watermark (max bucket.lastMs call.nowMs) rest
    show (bucket.consume call.nowMs call.amount).2.after rest = _
    rw [consume_idle hsound hidle.1, hrest]
    simp only [accrued, watermark, List.map_cons, List.foldl_cons] at hmark ⊢
    generalize (rest.map Spend.nowMs).foldl max (max bucket.lastMs call.nowMs) = mark at hmark ⊢
    have hsplit : (mark - bucket.lastMs) * bucket.refillMtPerMs =
        (call.nowMs - bucket.lastMs) * bucket.refillMtPerMs +
          (mark - max bucket.lastMs call.nowMs) * bucket.refillMtPerMs := by
      rw [← Nat.add_mul]
      congr 1
      omega
    rw [hsplit, max_eq_right (le_max_left _ _ |>.trans hmark), max_eq_right hmark]
    congr 1
    omega

/-! ### Grants -/

/-- What a bucket can still grant while its watermark is in a window. -/
def budget (bucket : TokenBucket) (first last : ℕ) : ℕ :=
  if bucket.lastMs < first then bucket.capacityMt + (last - first) * bucket.refillMtPerMs
  else if bucket.lastMs ≤ last then
    bucket.availableMt + (last - bucket.lastMs) * bucket.refillMtPerMs
  else 0

theorem chargedIn_cons (first last : ℕ) (grant : Grant) (rest : List Grant) :
    chargedIn first last (grant :: rest) =
      (if first ≤ grant.watermark ∧ grant.watermark ≤ last then grant.charge else 0) +
        chargedIn first last rest := by
  unfold chargedIn
  rw [List.filter_cons]
  split_ifs with hinside <;> simp_all

section

variable (hsound : bucket.Sound)
include hsound

theorem budget_step (first last nowMs : ℕ) {left charge : ℕ}
    (hleft : left + charge = bucket.accrued nowMs) (hwindow : first ≤ last) :
    (if first ≤ max bucket.lastMs nowMs ∧ max bucket.lastMs nowMs ≤ last then charge else 0) +
      budget { bucket with availableMt := left, lastMs := max bucket.lastMs nowMs } first last ≤
        bucket.budget first last := by
  have havailable := hsound.available
  unfold accrued at hleft
  unfold budget
  dsimp only
  by_cases hbefore : max bucket.lastMs nowMs < first
  · rw [if_pos hbefore, if_pos (lt_of_le_of_lt (le_max_left _ _) hbefore), if_neg (by omega),
      Nat.zero_add]
  rw [if_neg hbefore]
  by_cases hinside : max bucket.lastMs nowMs ≤ last
  swap
  · rw [if_neg hinside, if_neg fun h ↦ hinside h.2]
    exact Nat.zero_le _
  rw [if_pos hinside, if_pos ⟨not_lt.mp hbefore, hinside⟩]
  by_cases hold : bucket.lastMs < first
  · rw [if_pos hold]
    have hrefill := Nat.mul_le_mul_right bucket.refillMtPerMs
      (show last - max bucket.lastMs nowMs ≤ last - first by omega)
    omega
  · rw [if_neg hold, if_pos (by omega)]
    have hsplit : (last - bucket.lastMs) * bucket.refillMtPerMs =
        (nowMs - bucket.lastMs) * bucket.refillMtPerMs +
          (last - max bucket.lastMs nowMs) * bucket.refillMtPerMs := by
      rw [← Nat.add_mul]
      congr 1
      omega
    omega

theorem chargedIn_le (calls : List Spend) {first last : ℕ} (hwindow : first ≤ last) :
    chargedIn first last (bucket.grants calls) ≤ bucket.budget first last := by
  induction calls generalizing bucket with
  | nil => exact Nat.zero_le _
  | cons call rest ih =>
    obtain ⟨left, hafter, hleft⟩ := consume_spec hsound call.nowMs call.amount
    have hrest := ih (consume_sound hsound call.nowMs call.amount)
    simp only [grants]
    rw [hafter] at hrest ⊢
    rcases hleft with ⟨hok, hleft⟩ | ⟨hfail, hleft⟩
    · rw [if_pos hok, chargedIn_cons]
      exact (Nat.add_le_add_left hrest _).trans (budget_step hsound first last _ hleft hwindow)
    · rw [if_neg (by rw [hfail]; exact Bool.false_ne_true)]
      have hstep := budget_step hsound first last call.nowMs ((Nat.add_zero _).trans hleft) hwindow
      omega

theorem credited_once (calls : List Spend) :
    (bucket.after calls).availableMt + ((bucket.grants calls).map Grant.charge).sum ≤
      bucket.availableMt +
        (watermark bucket.lastMs calls - bucket.lastMs) * bucket.refillMtPerMs := by
  induction calls generalizing bucket with
  | nil => simp [after, grants]
  | cons call rest ih =>
    obtain ⟨left, hafter, hleft⟩ := consume_spec hsound call.nowMs call.amount
    have hrest := ih (consume_sound hsound call.nowMs call.amount)
    have hmark := le_watermark (max bucket.lastMs call.nowMs) rest
    have hcons : watermark bucket.lastMs (call :: rest) =
        watermark (max bucket.lastMs call.nowMs) rest := rfl
    have hsplit : (watermark bucket.lastMs (call :: rest) - bucket.lastMs) * bucket.refillMtPerMs =
        (call.nowMs - bucket.lastMs) * bucket.refillMtPerMs +
          (watermark (max bucket.lastMs call.nowMs) rest - max bucket.lastMs call.nowMs) *
            bucket.refillMtPerMs := by
      rw [← Nat.add_mul, hcons]
      congr 1
      omega
    have haccrued : bucket.accrued call.nowMs ≤ bucket.availableMt +
        (call.nowMs - bucket.lastMs) * bucket.refillMtPerMs := min_le_right _ _
    simp only [after, grants]
    rw [hafter] at hrest ⊢
    rw [hsplit]
    dsimp only at hrest
    rcases hleft with ⟨hok, hleft⟩ | ⟨hfail, hleft⟩
    · rw [if_pos hok, List.map_cons, List.sum_cons]
      simp only [Grant.charge] at hrest ⊢
      omega
    · rw [if_neg (by rw [hfail]; exact Bool.false_ne_true)]
      omega

/-- A time at or behind the watermark credits nothing and leaves the watermark where it was. -/
theorem consume_backwards {nowMs : ℕ} (hback : nowMs ≤ bucket.lastMs) (amount : ℕ) :
    (bucket.consume nowMs amount).2.availableMt ≤ bucket.availableMt ∧
      (bucket.consume nowMs amount).2.lastMs = bucket.lastMs := by
  obtain ⟨left, hafter, hleft⟩ := consume_spec hsound nowMs amount
  have haccrued : bucket.accrued nowMs ≤ bucket.availableMt := by
    rw [accrued, Nat.sub_eq_zero_of_le hback, Nat.zero_mul]
    exact min_le_right _ _
  rw [hafter]
  refine ⟨?_, max_eq_left hback⟩
  show left ≤ bucket.availableMt
  omega

/-- The whole tokens of the balance can be spent at any time. -/
theorem consume_of_le (nowMs : ℕ) {amount : ℕ} (hamount : amount ≤ bucket.availableMt / 1000) :
    (bucket.consume nowMs amount).1 = true := by
  have hkept : bucket.availableMt ≤ bucket.accrued nowMs :=
    le_min hsound.available (Nat.le_add_right _ _)
  have hneed : saturatingMul amount 1000 ≤ bucket.availableMt :=
    (min_le_right _ _).trans ((Nat.mul_le_mul_right 1000 hamount).trans (Nat.div_mul_le_self _ _))
  rw [consume_eq hsound, if_pos (hneed.trans hkept)]

theorem after_params (calls : List Spend) : (bucket.after calls).capacityMt = bucket.capacityMt ∧
      (bucket.after calls).refillMtPerMs = bucket.refillMtPerMs := by
  induction calls generalizing bucket with
  | nil => exact ⟨rfl, rfl⟩
  | cons call rest ih =>
    obtain ⟨left, hafter, -⟩ := consume_spec hsound call.nowMs call.amount
    have hrest := ih (consume_sound hsound call.nowMs call.amount)
    rw [hafter] at hrest
    rw [after, hafter]
    exact hrest

end

theorem tokens_le {granted : List Grant} {first last bound : ℕ}
    (hexact : ∀ grant ∈ granted, grant.amount * 1000 ≤ u64Max)
    (hcharged : chargedIn first last granted ≤ bound) :
    1000 * ((granted.filter fun grant ↦ first ≤ grant.watermark ∧ grant.watermark ≤ last).map
      Grant.amount).sum ≤ bound := by
  refine le_trans (le_of_eq ?_) hcharged
  rw [chargedIn, ← List.sum_map_mul_left]
  congr 1
  refine List.map_congr_left fun grant hgrant ↦ ?_
  rw [Grant.charge, saturatingMul, min_eq_right (hexact grant (List.mem_of_mem_filter hgrant)),
    Nat.mul_comm]

end TokenBucket

structure PeerState where
  failBudget : TokenBucket
  byteBudget : TokenBucket
deriving DecidableEq

namespace PeerState

/-- Attempts to spend one failure response: both budgets deduct, whatever the other does. -/
def tryConsumeFailure (peer : PeerState) (nowMs byteLen : ℕ) : Bool × PeerState :=
  let frames := peer.failBudget.consume nowMs 1
  let bytes := peer.byteBudget.consume nowMs byteLen
  (frames.1 && bytes.1, ⟨frames.2, bytes.2⟩)

def after (peer : PeerState) : List TokenBucket.Spend → PeerState
  | [] => peer
  | attempt :: rest => (peer.tryConsumeFailure attempt.nowMs attempt.amount).2.after rest

theorem after_eq (peer : PeerState) (attempts : List TokenBucket.Spend) : peer.after attempts =
      ⟨peer.failBudget.after (attempts.map fun attempt ↦ ⟨attempt.nowMs, 1⟩),
        peer.byteBudget.after attempts⟩ := by
  induction attempts generalizing peer with
  | nil => rfl
  | cons attempt rest ih =>
    rw [after, ih, tryConsumeFailure, List.map_cons, TokenBucket.after, TokenBucket.after]

end PeerState

namespace TokenBucket

/-- What holds of a bucket whatever was spent before: the balance stays within the capacity, idle
calls add up, the grants of every window of watermarks are bounded, a time behind the watermark
gains nothing, every step of the watermark is credited once, and a balance can be spent. -/
theorem bucket_laws (burst perSec : ℕ) (calls : List Spend) :
    ((new burst perSec).after calls).availableMt ≤ saturatingMul burst 1000 ∧
    (∀ more, ((new burst perSec).after calls).Idle more →
      (new burst perSec).after (calls ++ more) = (((new burst perSec).after calls).consume
        (watermark ((new burst perSec).after calls).lastMs more) 0).2) ∧
    (∀ first last, first ≤ last → chargedIn first last ((new burst perSec).grants calls) ≤
        saturatingMul burst 1000 + (last - first) * perSec ∧
      ((∀ grant ∈ (new burst perSec).grants calls, grant.amount * 1000 ≤ u64Max) →
        ((((new burst perSec).grants calls).filter fun grant ↦
          first ≤ grant.watermark ∧ grant.watermark ≤ last).map Grant.amount).sum ≤
            burst + perSec * (last - first) / 1000)) ∧
    (∀ nowMs amount, nowMs ≤ ((new burst perSec).after calls).lastMs →
      (((new burst perSec).after calls).consume nowMs amount).2.availableMt ≤
          ((new burst perSec).after calls).availableMt ∧
        (((new burst perSec).after calls).consume nowMs amount).2.lastMs =
          ((new burst perSec).after calls).lastMs) ∧
    (∀ more, (((new burst perSec).after calls).after more).availableMt +
        ((((new burst perSec).after calls).grants more).map Grant.charge).sum ≤
      ((new burst perSec).after calls).availableMt +
        (watermark ((new burst perSec).after calls).lastMs more -
          ((new burst perSec).after calls).lastMs) * perSec) ∧
    (∀ nowMs amount, amount ≤ ((new burst perSec).after calls).availableMt / 1000 →
      (((new burst perSec).after calls).consume nowMs amount).1 = true) ∧
    ∀ (peer : PeerState), peer.after calls =
      ⟨peer.failBudget.after (calls.map fun attempt ↦ ⟨attempt.nowMs, 1⟩),
        peer.byteBudget.after calls⟩ := by
  have hnew := new_sound burst perSec
  have hsound := after_sound hnew calls
  obtain ⟨hcapacity, hrate⟩ := after_params hnew calls
  refine ⟨?_, ?_, ?_, ?_, ?_, ?_, ?_⟩
  · have havailable := hsound.available
    rw [hcapacity, new] at havailable
    exact havailable
  · intro more hidle
    rw [after_append]
    exact after_idle hsound hidle
  · intro first last hwindow
    have hcharged : chargedIn first last ((new burst perSec).grants calls) ≤
        saturatingMul burst 1000 + (last - first) * perSec := by
      refine (chargedIn_le hnew calls hwindow).trans ?_
      unfold budget new
      dsimp only
      split_ifs with hbefore
      · exact le_rfl
      · rw [Nat.le_zero.mp (not_lt.mp hbefore)]
      · omega
    refine ⟨hcharged, fun hexact ↦ ?_⟩
    have htokens := tokens_le hexact hcharged
    have hburst : saturatingMul burst 1000 ≤ burst * 1000 := min_le_right _ _
    rw [Nat.mul_comm (last - first)] at htokens
    omega
  · intro nowMs amount hback
    exact consume_backwards hsound hback amount
  · intro more
    have hcredited := credited_once hsound more
    rw [hrate] at hcredited
    exact hcredited
  · intro nowMs amount hamount
    exact consume_of_le hsound nowMs hamount
  · exact fun peer ↦ peer.after_eq calls

/-- A full bucket, after its token was spent. -/
theorem spent_bucket_laws : ((new 1 1).after [⟨0, 1⟩]).Idle [⟨10, 1⟩, ⟨20, 0⟩] ∧
      (new 1 1).after [⟨0, 1⟩, ⟨10, 1⟩, ⟨20, 0⟩] = (((new 1 1).after [⟨0, 1⟩]).consume 20 0).2 :=
  have hidle : ((new 1 1).after [⟨0, 1⟩]).Idle [⟨10, 1⟩, ⟨20, 0⟩] :=
    ⟨.inl (by decide), .inr rfl, trivial⟩
  ⟨hidle, (bucket_laws 1 1 [⟨0, 1⟩]).2.1 _ hidle⟩

/-- A call that names a time behind the watermark is granted from credit accrued after it: two
tokens of a bucket of one are granted at time zero. -/
theorem backwards_window_exceeded : ¬∀ (burst perSec : ℕ) (calls : List Spend) (first last : ℕ),
    first ≤ last → ((((new burst perSec).grants calls).filter fun grant ↦
      first ≤ grant.nowMs ∧ grant.nowMs ≤ last).map Grant.amount).sum ≤
        burst + perSec * (last - first) / 1000 := by
  intro hall
  exact absurd (hall 1 1 [⟨0, 1⟩, ⟨1000, 0⟩, ⟨0, 1⟩] 0 0 le_rfl) (by decide)

end TokenBucket

end Crpg.Net
