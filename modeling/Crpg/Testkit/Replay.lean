import Crpg.Sim.Grounding

/-!
# Replays

`crpg-testkit/src/replay.rs`: a replay is a seed, a number of ticks and the inputs scheduled before
each of them. `playReplay` validates it and plays it with one cursor over the inputs, advanced while
the input at the cursor names the world's tick counter. `playSchedule` is what that is for: at each
tick, the inputs that name it. The payloads, what the caller's function does with one and the hash
are parameters, as is the state that function keeps.
-/

set_option autoImplicit false

namespace Crpg.Testkit

open Crpg.Core Crpg.Lib Crpg.Sim
open Result (bind_eq_ok_iff)

variable {π σ α : Type}

def replayFormatVersion : ℕ := 1

def maxReplayTicks : ℕ := 1000000

def maxReplayInputs : ℕ := 1000000

structure ReplayInput (π : Type) where
  tick : ℕ
  payload : π

structure Replay (π : Type) where
  formatVersion : ℕ
  seed : UInt64
  campaignId : String
  campaignVersion : String
  engineVersion : String
  totalTicks : ℕ
  inputs : List (ReplayInput π)

inductive ReplayError
  | malformed (detail : String)
  | unsupportedVersion (found : ℕ)
  | unorderedSchedule (index tick prevTick : ℕ)
  | outOfRange (index tick totalTicks : ℕ)
  | tooLarge (what : String) (value : ℕ)
  | applyFailed (tick index : ℕ) (reason : String)
deriving DecidableEq

/-! ### Validation -/

def scanSchedule (totalTicks : ℕ) : ℕ → Option ℕ → List (ReplayInput π) → Result ReplayError Unit
  | _, _, [] => .ok ()
  | index, prevTick, input :: rest =>
    (Result.failIf (prevTick.any (input.tick < ·))
      (.unorderedSchedule index input.tick (prevTick.getD 0))).bind fun _ ↦
    (Result.failIf (totalTicks ≤ input.tick)
      (.outOfRange index input.tick totalTicks)).bind fun _ ↦
      scanSchedule totalTicks (index + 1) (some input.tick) rest

def validateReplay (replay : Replay π) : Result ReplayError Unit := do
  .failIf (replay.formatVersion ≠ replayFormatVersion) (.unsupportedVersion replay.formatVersion)
  .failIf (replay.campaignId = "") (.malformed "campaign_id must not be empty")
  .failIf (replay.campaignVersion = "") (.malformed "campaign_version must not be empty")
  .failIf (replay.engineVersion = "") (.malformed "engine_version must not be empty")
  .failIf (maxReplayTicks < replay.totalTicks) (.tooLarge "total_ticks" replay.totalTicks)
  .failIf (maxReplayInputs < replay.inputs.length) (.tooLarge "inputs" replay.inputs.length)
  scanSchedule replay.totalTicks 0 none replay.inputs

theorem scanSchedule_eq_ok_iff {totalTicks index : ℕ} {prevTick : Option ℕ}
    {inputs : List (ReplayInput π)} : scanSchedule totalTicks index prevTick inputs = .ok () ↔
      (prevTick.toList ++ inputs.map ReplayInput.tick).Pairwise (· ≤ ·) ∧
        ∀ input ∈ inputs, input.tick < totalTicks := by
  induction inputs generalizing index prevTick with
  | nil => cases prevTick <;> simp [scanSchedule]
  | cons input rest ih =>
    cases prevTick with
    | none =>
      simp only [scanSchedule, bind_eq_ok_iff, Result.failIf_eq_ok_iff, ih, exists_const]
      simp [and_left_comm]
    | some prev =>
      simp only [scanSchedule, bind_eq_ok_iff, Result.failIf_eq_ok_iff, ih, exists_const]
      simp only [Option.any_some, decide_eq_true_eq, not_lt, not_le, Option.toList_some,
        List.singleton_append, List.map_cons, List.pairwise_cons, List.mem_cons,
        forall_eq_or_imp]
      constructor
      · rintro ⟨hprev, hrange, ⟨hfirst, hrest⟩, hranges⟩
        exact ⟨⟨⟨hprev, fun later hlater ↦ hprev.trans (hfirst later hlater)⟩, hfirst, hrest⟩,
          hrange, hranges⟩
      · rintro ⟨⟨⟨hprev, -⟩, hfirst, hrest⟩, hrange, hranges⟩
        exact ⟨hprev, hrange, ⟨hfirst, hrest⟩, hranges⟩

/-- The current format with its identity, within the bounds, in tick order and in range. -/
def Replay.Valid (replay : Replay π) : Prop :=
  replay.formatVersion = replayFormatVersion ∧ replay.campaignId ≠ "" ∧
    replay.campaignVersion ≠ "" ∧ replay.engineVersion ≠ "" ∧
    replay.totalTicks ≤ maxReplayTicks ∧ replay.inputs.length ≤ maxReplayInputs ∧
    (replay.inputs.map ReplayInput.tick).Pairwise (· ≤ ·) ∧
    ∀ input ∈ replay.inputs, input.tick < replay.totalTicks

theorem validateReplay_eq_ok_iff {replay : Replay π} :
    validateReplay replay = .ok () ↔ replay.Valid := by
  unfold validateReplay Replay.Valid
  simp only [Result.bind_eq, bind_eq_ok_iff, Result.failIf_eq_ok_iff, exists_const,
    scanSchedule_eq_ok_iff, not_lt, not_not, Option.toList_none, List.nil_append, ne_eq]

/-! ### Playback -/

/-- What the caller does with a payload, in a world and its own state. -/
abbrev ApplyInput (π σ : Type) := π → World × σ → Except String (World × σ)

def applyOne (apply : ApplyInput π σ) (state : World × σ) (entry : ReplayInput π × ℕ) :
    Result ReplayError (World × σ) :=
  match apply entry.1.payload state with
  | .ok next => .ok next
  | .error reason => .err (.applyFailed entry.1.tick entry.2 reason)

/-- The inner loop, from the input at the cursor: the inputs that name the counter. -/
def applyDue (apply : ApplyInput π σ) :
    List (ReplayInput π × ℕ) → World × σ → Result ReplayError (List (ReplayInput π × ℕ) × World × σ)
  | [], state => .ok ([], state)
  | entry :: rest, state =>
    if entry.1.tick = state.1.tick then (applyOne apply state entry).bind (applyDue apply rest)
    else .ok (entry :: rest, state)

/-- `tick` and `state_hash`; `none` is the panic of a hash on a float that is not finite. -/
def tickHash (hash : World → Option α) (state : World × σ) : Result ReplayError (α × World × σ) :=
  (tickTracked state.1).unwrap.bind fun ticked ↦
    (Result.expect (hash ticked.2)).bind fun recorded ↦ .ok (recorded, ticked.2, state.2)

/-- The outer loop, with the inputs from the cursor on. -/
def playTicks (apply : ApplyInput π σ) (hash : World → Option α) :
    ℕ → List (ReplayInput π × ℕ) → World × σ → Result ReplayError (List α)
  | 0, _, _ => .ok []
  | count + 1, entries, state =>
    (applyDue apply entries state).bind fun applied ↦
    (tickHash hash applied.2).bind fun ticked ↦
    (playTicks apply hash count applied.1 ticked.2).bind fun hashes ↦ .ok (ticked.1 :: hashes)

def playReplay (apply : ApplyInput π σ) (hash : World → Option α) (start : σ) (replay : Replay π) :
    Result ReplayError (List α) :=
  (validateReplay replay).bind fun _ ↦
    playTicks apply hash replay.totalTicks replay.inputs.zipIdx (.new replay.seed, start)

/-! ### The schedule -/

def playSchedule (apply : ApplyInput π σ) (hash : World → Option α)
    (entries : List (ReplayInput π × ℕ)) : List ℕ → World × σ → Result ReplayError (List α)
  | [], _ => .ok []
  | tick :: ticks, state =>
    (Result.foldlM (applyOne apply) state (entries.filter (·.1.tick = tick))).bind fun applied ↦
    (tickHash hash applied).bind fun ticked ↦
    (playSchedule apply hash entries ticks ticked.2).bind fun hashes ↦ .ok (ticked.1 :: hashes)

variable {apply : ApplyInput π σ} {hash : World → Option α} {entries rest : List (ReplayInput π × ℕ)}
  {tick count : ℕ} {state : World × σ}

theorem length_playSchedule {ticks : List ℕ} {hashes : List α}
    (hplay : playSchedule apply hash entries ticks state = .ok hashes) :
    hashes.length = ticks.length := by
  induction ticks generalizing state hashes with
  | nil =>
    cases hplay
    rfl
  | cons tick ticks ih =>
    obtain ⟨applied, -, hticks⟩ := bind_eq_ok_iff.mp hplay
    obtain ⟨ticked, -, hrest⟩ := bind_eq_ok_iff.mp hticks
    obtain ⟨later, hlater, hhashes⟩ := bind_eq_ok_iff.mp hrest
    cases hhashes
    rw [List.length_cons, List.length_cons, ih hlater]

def Ascending (entries : List (ReplayInput π × ℕ)) : Prop :=
  entries.Pairwise fun first second ↦ first.1.tick ≤ second.1.tick

theorem Ascending.split (hascending : Ascending entries) (tick : ℕ) :
    entries.filter (·.1.tick = tick) ++ entries.filter (tick + 1 ≤ ·.1.tick) =
      entries.filter (tick ≤ ·.1.tick) := by
  induction entries with
  | nil => rfl
  | cons entry rest ih =>
    obtain ⟨hfirst, hrest⟩ := List.pairwise_cons.mp hascending
    simp only [List.filter_cons, decide_eq_true_eq]
    rcases lt_trichotomy entry.1.tick tick with hlt | htick | hgt
    · rw [if_neg hlt.ne, if_neg (show ¬tick + 1 ≤ entry.1.tick by omega), if_neg hlt.not_ge,
        ih hrest]
    · rw [if_pos htick, if_neg (show ¬tick + 1 ≤ entry.1.tick by omega), if_pos htick.ge,
        List.cons_append, ih hrest]
    · have hnone : rest.filter (·.1.tick = tick) = [] := List.filter_eq_nil_iff.mpr
        fun other hother ↦ by
          rw [decide_eq_true_eq]
          exact (hgt.trans_le (hfirst other hother)).ne'
      rw [if_neg hgt.ne', if_pos (show tick + 1 ≤ entry.1.tick by omega), if_pos hgt.le,
        ← ih hrest, hnone]
      rfl

theorem Ascending.flatMap_filter (hascending : Ascending entries) (tick count : ℕ) :
    (List.range' tick count).flatMap (fun tick ↦ entries.filter (·.1.tick = tick)) ++
      entries.filter (tick + count ≤ ·.1.tick) = entries.filter (tick ≤ ·.1.tick) := by
  induction count generalizing tick with
  | zero => rfl
  | succ count ih =>
    have hrest := ih (tick + 1)
    rw [Nat.add_assoc, Nat.add_comm 1] at hrest
    rw [List.range'_succ, List.flatMap_cons, List.append_assoc, hrest, hascending.split]

section Playback

variable (hkeeps : ∀ payload state next, apply payload state = .ok next →
  next.1.tick = state.1.tick)
include hkeeps

theorem tick_applyOne {next : World × σ} {entry : ReplayInput π × ℕ}
    (hnext : applyOne apply state entry = .ok next) : next.1.tick = state.1.tick := by
  unfold applyOne at hnext
  split at hnext
  · cases hnext
    exact hkeeps _ _ _ ‹_›
  · cases hnext

/-- The inner loop applies the inputs that name the counter and stops at a later one. -/
theorem applyDue_eq (hdue : ∀ entry ∈ entries, entry.1.tick = tick)
    (hlater : ∀ entry ∈ rest, tick + 1 ≤ entry.1.tick) (htick : state.1.tick = tick) :
    applyDue apply (entries ++ rest) state =
      (Result.foldlM (applyOne apply) state entries).bind fun applied ↦ .ok (rest, applied) := by
  induction entries generalizing state with
  | nil =>
    cases rest with
    | nil => rfl
    | cons entry rest =>
      have hentry := hlater entry List.mem_cons_self
      rw [List.nil_append, applyDue, if_neg (by omega)]
      rfl
  | cons entry due ih =>
    obtain ⟨hentry, hothers⟩ := List.forall_mem_cons.mp hdue
    rw [List.cons_append, applyDue, if_pos (hentry.trans htick.symm), Result.foldlM,
      Result.bind_assoc]
    exact Result.bind_congr fun next hnext ↦ ih hothers ((tick_applyOne hkeeps hnext).trans htick)

omit hkeeps in
theorem tick_tickHash {ticked : α × World × σ} (hticked : tickHash hash state = .ok ticked)
    (hroom : state.1.tick < maxReplayTicks) : ticked.2.1.tick = state.1.tick + 1 := by
  obtain ⟨next, hnext, hhash⟩ := bind_eq_ok_iff.mp hticked
  obtain ⟨recorded, -, hrecorded⟩ := bind_eq_ok_iff.mp hhash
  cases hrecorded
  rw [(tickTracked_controlled (Result.unwrap_eq_ok_iff.mp hnext)).1.tick]
  show min u64Max (state.1.tick + 1) = _
  unfold maxReplayTicks at hroom
  unfold u64Max
  omega

/-- The outer loop plays the schedule from the counter on. -/
theorem playTicks_eq (hascending : Ascending entries) (hroom : tick + count ≤ maxReplayTicks)
    (htick : state.1.tick = tick) :
    playTicks apply hash count (entries.filter (tick ≤ ·.1.tick)) state =
      playSchedule apply hash entries (List.range' tick count) state := by
  induction count generalizing tick state with
  | zero => rfl
  | succ count ih =>
    rw [playTicks, ← hascending.split tick, applyDue_eq hkeeps
      (fun _ hentry ↦ of_decide_eq_true (List.mem_filter.mp hentry).2)
      (fun _ hentry ↦ of_decide_eq_true (List.mem_filter.mp hentry).2) htick,
      List.range'_succ, playSchedule, Result.bind_assoc]
    refine Result.bind_congr fun applied happlied ↦ ?_
    have hcounter : applied.1.tick = tick := Result.foldlM_preserves
      (motive := fun state : World × σ ↦ state.1.tick = tick)
      (fun _ _ _ _ hold hnext ↦ (tick_applyOne hkeeps hnext).trans hold) htick happlied
    rw [Result.ok_bind]
    refine Result.bind_congr fun ticked hticked ↦ ?_
    have hbelow : applied.1.tick < maxReplayTicks := by omega
    have hnext := tick_tickHash hticked hbelow
    dsimp only at hnext
    rw [ih (by omega) (hcounter ▸ hnext)]

end Playback

/-- Replays. Validation accepts exactly the current format with its identity, within the bounds, in
tick order and in range. A validated replay plays its schedule: the inputs of the ticks, tick after
tick, are all the inputs in file order, and a playback that returns has a hash for each tick.
Assumes: applying an input leaves the tick counter. -/
theorem play_replay_exact {apply : ApplyInput π σ} (hkeeps : ∀ payload state next,
      apply payload state = .ok next → next.1.tick = state.1.tick)
    (hash : World → Option α) (start : σ) (replay : Replay π) :
    (validateReplay replay = .ok () ↔ replay.Valid) ∧
    (validateReplay replay = .ok () → playReplay apply hash start replay =
        playSchedule apply hash replay.inputs.zipIdx (List.range replay.totalTicks)
          (.new replay.seed, start) ∧
      (List.range replay.totalTicks).flatMap
        (fun tick ↦ replay.inputs.zipIdx.filter (·.1.tick = tick)) = replay.inputs.zipIdx ∧
      ∀ hashes, playReplay apply hash start replay = .ok hashes →
        hashes.length = replay.totalTicks) := by
  have hvalid := @validateReplay_eq_ok_iff _ replay
  refine ⟨hvalid, fun hok ↦ ?_⟩
  obtain ⟨-, -, -, -, hticks, -, hsorted, hrange⟩ := hvalid.mp hok
  have hascending : Ascending replay.inputs.zipIdx := by
    rw [← List.zipIdx_map_fst 0 replay.inputs, List.map_map] at hsorted
    exact List.pairwise_map.mp hsorted
  have hall : replay.inputs.zipIdx.filter (0 ≤ ·.1.tick) = replay.inputs.zipIdx :=
    List.filter_eq_self.mpr fun _ _ ↦ decide_eq_true (Nat.zero_le _)
  have hplay : playReplay apply hash start replay = playSchedule apply hash replay.inputs.zipIdx
      (List.range replay.totalTicks) (.new replay.seed, start) := by
    rw [playReplay, hok, Result.ok_bind]
    have hplayed := @playTicks_eq _ _ _ _ hash _ _ _ _ hkeeps hascending
      (by omega : 0 + replay.totalTicks ≤ maxReplayTicks)
      (rfl : (World.new replay.seed, start).1.tick = 0)
    rwa [hall, ← List.range_eq_range'] at hplayed
  refine ⟨hplay, ?_, fun hashes hhashes ↦ ?_⟩
  · have hsplit := hascending.flatMap_filter 0 replay.totalTicks
    have hnone : replay.inputs.zipIdx.filter (0 + replay.totalTicks ≤ ·.1.tick) = [] :=
      List.filter_eq_nil_iff.mpr fun entry hentry ↦ by
        simpa using hrange _ (List.fst_mem_of_mem_zipIdx hentry)
    rwa [hnone, List.append_nil, hall, ← List.range_eq_range'] at hsplit
  · rw [length_playSchedule (hplay ▸ hhashes), List.length_range]

/-- A replay of two inputs, at the second tick of three. -/
theorem play_replay_exact_two :
    let replay : Replay Unit := ⟨1, 7, "campaign", "1", "1", 3, [⟨1, ()⟩, ⟨1, ()⟩]⟩
    let apply : ApplyInput Unit ℕ := fun _ state ↦ .ok (state.1, state.2 + 1)
    playReplay apply (fun world ↦ some world.tick) 0 replay = playSchedule apply
      (fun world ↦ some world.tick) [(⟨1, ()⟩, 0), (⟨1, ()⟩, 1)] [0, 1, 2] (.new 7, 0) :=
  have hexact := @play_replay_exact Unit ℕ ℕ (fun _ state ↦ .ok (state.1, state.2 + 1))
    (fun _ _ _ hnext ↦ by cases hnext; rfl) (fun world ↦ some world.tick) 0
    ⟨1, 7, "campaign", "1", "1", 3, [⟨1, ()⟩, ⟨1, ()⟩]⟩
  (hexact.2 (by decide)).1

end Crpg.Testkit
