import Crpg.Core.UniformDraw
import Crpg.Lib.Result

/-!
# Streams do not influence each other

The named streams of `crpg-core/src/rng.rs` under any interleaving of draws, with the serialized
form of the generator and its loader. `play` runs events against a generator; `replay` makes draws
of one stream on its own. What a run draws from a stream is the replay of the draws it makes there
(`play_replays`), whatever the run does elsewhere, so two runs that make the same draws on a stream
draw the same values from it (`stream_independence`).

`Derived` carries the argument: the seed never changes, and neither does the increment a stream was
derived with. It is also what the loader checks.
-/

set_option autoImplicit false

namespace Crpg.Core

open Crpg.Lib

/-! ### Draws -/

/-- A draw of a stream. The bound of a range draw is a `NonZeroU32`. -/
inductive Draw
  | nextU32
  | nextU64
  | genRangeU32 (bound : { bound : UInt32 // bound ≠ 0 })
  | genRangeI32 (lo hi : Int32)
  | genBool
deriving DecidableEq

/-- What a draw returns. -/
inductive Drawn
  | word (value : UInt32)
  | wide (value : UInt64)
  | signed (value : Int32)
  | bit (value : Bool)
deriving DecidableEq

namespace Pcg32

/-- Makes a draw; `none` is a draw without end or a panic. -/
def draw (stream : Pcg32) : Draw → Option (Drawn × Pcg32)
  | .nextU32 => some (.word stream.nextU32.1, stream.nextU32.2)
  | .nextU64 => some (.wide stream.nextU64.1, stream.nextU64.2)
  | .genRangeU32 bound => (stream.genRangeU32 bound.1).map fun drawn ↦ (.word drawn.1, drawn.2)
  | .genRangeI32 lo hi => (stream.genRangeI32 lo hi).map fun drawn ↦ (.signed drawn.1, drawn.2)
  | .genBool => some (.bit stream.genBool.1, stream.genBool.2)

/-- Makes draws one after another. -/
def replay (stream : Pcg32) : List Draw → Option (List Drawn × Pcg32)
  | [] => some ([], stream)
  | first :: rest =>
    (stream.draw first).bind fun drawn ↦
      (replay drawn.2 rest).map fun later ↦ (drawn.1 :: later.1, later.2)

-- With the stream taken apart, no step compares the next state with the old one.
theorem nextU32_inc : ∀ stream : Pcg32, stream.nextU32.2.inc = stream.inc
  | ⟨_, _⟩ => rfl

theorem nextU64_inc (stream : Pcg32) : stream.nextU64.2.inc = stream.inc := by
  unfold nextU64
  dsimp only
  rw [nextU32_inc, nextU32_inc]

theorem genRangeI32_inc {stream : Pcg32} {lo hi : Int32} {drawn : Int32 × Pcg32}
    (hdraw : stream.genRangeI32 lo hi = some drawn) : drawn.2.inc = stream.inc := by
  unfold genRangeI32 at hdraw
  split_ifs at hdraw with hsingle hordered
  · rw [← Option.some.inj hdraw]
  · obtain ⟨⟨offset, next⟩, hoffset, hdrawn⟩ := Option.bind_eq_some_iff.mp hdraw
    have hnext : next.inc = stream.inc := by
      split_ifs at hoffset with hfull hzero
      · have hword := congrArg Prod.snd (Option.some.inj hoffset)
        dsimp only at hword
        rw [← hword]
        exact nextU32_inc stream
      · exact redraw_inc hoffset
    dsimp only at hdrawn
    split_ifs at hdrawn with hwithin
    rw [← Option.some.inj hdrawn]
    exact hnext

/-- A draw returns and keeps the increment. Assumes: an odd increment. -/
theorem draw_returns {stream : Pcg32} (hodd : stream.IsOdd) (next : Draw) :
    ∃ drawn, stream.draw next = some drawn ∧ drawn.2.inc = stream.inc := by
  cases next with
  | nextU32 => exact ⟨(.word stream.nextU32.1, stream.nextU32.2), rfl, nextU32_inc stream⟩
  | nextU64 => exact ⟨(.wide stream.nextU64.1, stream.nextU64.2), rfl, nextU64_inc stream⟩
  | genBool => exact ⟨(.bit stream.genBool.1, stream.genBool.2), rfl, nextU32_inc stream⟩
  | genRangeU32 bound =>
    obtain ⟨drawn, hdrawn⟩ := Option.isSome_iff_exists.mp (genRangeU32_isSome hodd bound.1)
    refine ⟨(.word drawn.1, drawn.2), ?_, redraw_inc hdrawn⟩
    rw [draw, hdrawn, Option.map_some]
  | genRangeI32 lo hi =>
    have hreturns : ∃ drawn, stream.genRangeI32 lo hi = some drawn := by
      by_cases hrange : lo ≤ hi
      · obtain ⟨drawn, after, hdrawn, -⟩ := genRangeI32_mem hodd hrange
        exact ⟨(drawn, after), hdrawn⟩
      · exact ⟨_, if_pos (Int32.le_of_lt (Int32.not_le.mp hrange))⟩
    obtain ⟨drawn, hdrawn⟩ := hreturns
    refine ⟨(.signed drawn.1, drawn.2), ?_, genRangeI32_inc hdrawn⟩
    rw [draw, hdrawn, Option.map_some]

end Pcg32

/-! ### The serialized form -/

/-- The serialized form of a stream: `Pcg32Repr`. -/
structure Pcg32Repr where
  state : UInt64
  inc : UInt64
deriving DecidableEq

/-- The serialized form of a generator: `DeterministicRngRepr`, its map as a list of pairs. -/
structure DeterministicRngRepr where
  seed : UInt64
  streams : List (String × Pcg32Repr)
deriving DecidableEq

/-- What the loader refuses. -/
inductive RngError
  /-- `PCG32 stream increment must be odd`. -/
  | evenIncrement
  /-- `PCG32 stream increment does not match seed and name`, with the name. -/
  | mismatchedIncrement (name : String)
deriving DecidableEq

namespace Pcg32

def serialize (stream : Pcg32) : Pcg32Repr := ⟨stream.state, stream.inc⟩

/-- `Deserialize` of a stream. -/
def deserialize (repr : Pcg32Repr) : Except RngError Pcg32 :=
  if repr.inc &&& 1 = 0 then .error .evenIncrement else .ok ⟨repr.state, repr.inc⟩

theorem deserialize_serialize {stream : Pcg32} (hodd : stream.IsOdd) :
    deserialize stream.serialize = .ok stream := by
  have hone : stream.inc &&& 1 ≠ 0 := by
    intro heven
    have hnat := congrArg UInt64.toNat heven
    have hmod := congrArg UInt64.toNat hodd
    rw [UInt64.toNat_and] at hnat
    rw [UInt64.toNat_mod] at hmod
    have hmask : stream.inc.toNat &&& 1 = stream.inc.toNat % 2 := Nat.and_one_is_mod _
    have hzero : stream.inc.toNat % 2 = 0 := hmask ▸ hnat
    have hmodone : stream.inc.toNat % 2 = 1 := hmod
    omega
  unfold deserialize serialize
  rw [if_neg hone]

end Pcg32

namespace DeterministicRng

def readStreams : List (String × Pcg32Repr) → Except RngError (List (String × Pcg32))
  | [] => .ok []
  | (name, repr) :: rest =>
    match Pcg32.deserialize repr with
    | .error error => .error error
    | .ok stream => (readStreams rest).map fun later ↦ (name, stream) :: later

/-- Whether a stream has another increment than the one its name derives. -/
def isMismatched (seed : UInt64) (entry : String × Pcg32) : Bool :=
  entry.2.inc ≠ (deriveStream seed entry.1).inc

def checkStreams (seed : UInt64) (streams : BTreeMap String Pcg32) :
    Except RngError DeterministicRng :=
  match streams.entries.find? (isMismatched seed) with
  | some entry => .error (.mismatchedIncrement entry.1)
  | none => .ok ⟨seed, streams⟩

def serialize (rng : DeterministicRng) : DeterministicRngRepr :=
  ⟨rng.seed, rng.streams.entries.map fun entry ↦ (entry.1, entry.2.serialize)⟩

def deserialize (repr : DeterministicRngRepr) : Except RngError DeterministicRng :=
  match readStreams repr.streams with
  | .error error => .error error
  | .ok streams => checkStreams repr.seed (BTreeMap.ofList streams)

def Derived (rng : DeterministicRng) : Prop :=
  ∀ name stream, rng.streams.get? name = some stream →
    stream.inc = (deriveStream rng.seed name).inc

variable {rng : DeterministicRng}

theorem Derived.stream (hderived : rng.Derived) (name : String) :
    (rng.stream name).inc = (deriveStream rng.seed name).inc := by
  unfold DeterministicRng.stream
  cases hget : rng.streams.get? name with
  | some stream => exact hderived name stream hget
  | none => rfl

theorem Derived.stream_isOdd (hderived : rng.Derived) (name : String) :
    (rng.stream name).IsOdd := by
  have hodd := deriveStream_isOdd rng.seed name
  unfold Pcg32.IsOdd at hodd ⊢
  rw [hderived.stream name, hodd]

theorem Derived.setStream (hderived : rng.Derived) {name : String} {stream : Pcg32}
    (hinc : stream.inc = (rng.stream name).inc) : (rng.setStream name stream).Derived := by
  intro other found hget
  by_cases hsame : other = name
  · rw [hsame, DeterministicRng.setStream, BTreeMap.get?_insert_self, Option.some.injEq] at hget
    rw [← hget, hsame, hinc]
    exact hderived.stream name
  · rw [DeterministicRng.setStream, BTreeMap.get?_insert_of_ne _ hsame] at hget
    exact hderived other found hget

@[simp]
theorem stream_setStream_self (rng : DeterministicRng) (name : String) (stream : Pcg32) :
    (rng.setStream name stream).stream name = stream := by
  simp [DeterministicRng.setStream, DeterministicRng.stream]

theorem stream_setStream_of_ne (rng : DeterministicRng) {name other : String} (hne : other ≠ name)
    (stream : Pcg32) : (rng.setStream name stream).stream other = rng.stream other := by
  simp [DeterministicRng.setStream, DeterministicRng.stream, hne]

theorem readStreams_serialize {entries : List (String × Pcg32)}
    (hodd : ∀ entry ∈ entries, entry.2.IsOdd) :
    readStreams (entries.map fun entry ↦ (entry.1, entry.2.serialize)) = .ok entries := by
  induction entries with
  | nil => rfl
  | cons entry rest ih =>
    obtain ⟨hhead, hrest⟩ := List.forall_mem_cons.mp hodd
    rw [List.map_cons, readStreams, Pcg32.deserialize_serialize hhead]
    dsimp only
    rw [ih hrest]
    rfl

/-- The loader takes a generator whose streams are derived, and returns it. -/
theorem deserialize_serialize (hderived : rng.Derived) : deserialize rng.serialize = .ok rng := by
  have hinc : ∀ entry ∈ rng.streams.entries,
      entry.2.inc = (deriveStream rng.seed entry.1).inc := fun entry hentry ↦
    hderived entry.1 entry.2 (rng.streams.mem_entries_iff.mp hentry)
  have hodd : ∀ entry ∈ rng.streams.entries, entry.2.IsOdd := by
    intro entry hentry
    have hderive := deriveStream_isOdd rng.seed entry.1
    unfold Pcg32.IsOdd at hderive ⊢
    rw [hinc entry hentry, hderive]
  have hfind : rng.streams.entries.find? (isMismatched rng.seed) = none := by
    rw [List.find?_eq_none]
    intro entry hentry
    simp [isMismatched, hinc entry hentry]
  unfold deserialize serialize
  rw [readStreams_serialize hodd]
  dsimp only
  rw [BTreeMap.ofList_entries, checkStreams, hfind]

end DeterministicRng

/-! ### Interleavings -/

/-- What a program does with a generator: it draws from a named stream, borrows a stream without
drawing, or saves and loads the generator. -/
inductive StreamEvent
  | draw (name : String) (draw : Draw)
  | touch (name : String)
  | reload
deriving DecidableEq

namespace DeterministicRng

def step (rng : DeterministicRng) : StreamEvent → Option (List (String × Drawn) × DeterministicRng)
  | .draw name next =>
    ((rng.stream name).draw next).map fun drawn ↦ ([(name, drawn.1)], rng.setStream name drawn.2)
  | .touch name => some ([], rng.setStream name (rng.stream name))
  | .reload =>
    match deserialize rng.serialize with
    | .ok loaded => some ([], loaded)
    | .error _ => none

/-- The values a run of events draws, and the generator after it; `none` when an event does not
return or the loader refuses the saved generator. -/
def play (rng : DeterministicRng) :
    List StreamEvent → Option (List (String × Drawn) × DeterministicRng)
  | [] => some ([], rng)
  | event :: rest =>
    (rng.step event).bind fun after ↦
      (play after.2 rest).map fun later ↦ (after.1 ++ later.1, later.2)

def drawsOf (name : String) : StreamEvent → List Draw
  | .draw found next => if found = name then [next] else []
  | .touch _ => []
  | .reload => []

def drawsOn (name : String) (events : List StreamEvent) : List Draw :=
  events.flatMap (drawsOf name)

def valuesOn (name : String) (values : List (String × Drawn)) : List Drawn :=
  (values.filter fun value ↦ value.1 = name).map Prod.snd

theorem valuesOn_append (name : String) (first second : List (String × Drawn)) :
    valuesOn name (first ++ second) = valuesOn name first ++ valuesOn name second := by
  simp [valuesOn]

theorem step_replays {rng : DeterministicRng} (hderived : rng.Derived) (event : StreamEvent) :
    ∃ after, rng.step event = some after ∧ after.2.Derived ∧
      ∀ name, (rng.stream name).replay (drawsOf name event) =
        some (valuesOn name after.1, after.2.stream name) := by
  cases event with
  | draw name next =>
    obtain ⟨drawn, hdrawn, hinc⟩ := Pcg32.draw_returns (hderived.stream_isOdd name) next
    refine ⟨([(name, drawn.1)], rng.setStream name drawn.2), ?_, hderived.setStream hinc,
      fun other ↦ ?_⟩
    · rw [step, hdrawn, Option.map_some]
    by_cases hsame : name = other
    · subst hsame
      simp [drawsOf, Pcg32.replay, hdrawn, valuesOn]
    · simp [drawsOf, hsame, Pcg32.replay, valuesOn, stream_setStream_of_ne rng (Ne.symm hsame)]
  | touch name =>
    refine ⟨_, rfl, hderived.setStream rfl, fun other ↦ ?_⟩
    have hstream : (rng.setStream name (rng.stream name)).stream other = rng.stream other := by
      by_cases hsame : other = name
      · rw [hsame, stream_setStream_self]
      · exact stream_setStream_of_ne rng hsame _
    simp [drawsOf, Pcg32.replay, valuesOn, hstream]
  | reload =>
    refine ⟨([], rng), ?_, hderived, fun other ↦ rfl⟩
    simp only [step, deserialize_serialize hderived]

end DeterministicRng

namespace Pcg32

theorem replay_append {stream next : Pcg32} {first second : List Draw} {values : List Drawn}
    (hfirst : stream.replay first = some (values, next)) : stream.replay (first ++ second) =
      (next.replay second).map fun later ↦ (values ++ later.1, later.2) := by
  induction first generalizing stream values with
  | nil =>
    rw [replay, Option.some.injEq, Prod.mk.injEq] at hfirst
    rw [← hfirst.1, ← hfirst.2]
    simp
  | cons head rest ih =>
    obtain ⟨drawn, hdrawn, hrest⟩ := Option.bind_eq_some_iff.mp hfirst
    obtain ⟨⟨later, after⟩, hlater, heq⟩ := Option.map_eq_some_iff.mp hrest
    rw [Prod.mk.injEq] at heq
    obtain ⟨hvalues, hafter⟩ := heq
    dsimp only at hvalues hafter
    rw [hafter] at hlater
    rw [List.cons_append, replay, hdrawn, Option.bind_some, ih hlater, ← hvalues, Option.map_map]
    rfl

end Pcg32

namespace DeterministicRng

theorem play_replays {rng : DeterministicRng} (hderived : rng.Derived) (events : List StreamEvent) :
    ∃ after, rng.play events = some after ∧ after.2.Derived ∧
      ∀ name, (rng.stream name).replay (drawsOn name events) =
        some (valuesOn name after.1, after.2.stream name) := by
  induction events generalizing rng with
  | nil => exact ⟨_, rfl, hderived, fun _ ↦ rfl⟩
  | cons event rest ih =>
    obtain ⟨middle, hstep, hmiddle, hhead⟩ := step_replays hderived event
    obtain ⟨after, hplay, hafter, htail⟩ := ih hmiddle
    refine ⟨(middle.1 ++ after.1, after.2), ?_, hafter, fun name ↦ ?_⟩
    · rw [play, hstep, Option.bind_some, hplay]
      rfl
    · show (rng.stream name).replay (drawsOf name event ++ drawsOn name rest) = _
      rw [Pcg32.replay_append (hhead name), htail name, Option.map_some, valuesOn_append]

theorem derived_fromSeed (seed : UInt64) : (fromSeed seed).Derived := fun _ _ ↦ nofun

/-- Streams are independent. Two runs from one seed that make the same draws on a stream return,
draw the same values from it, and leave it in the same state, whatever they do with the other
streams, the order of first use and the reloads in between. The loader takes the saved form of what
a run reaches and returns an equal generator, which every later run continues alike. -/
theorem stream_independence (seed : UInt64) (name : String) {first second : List StreamEvent}
    (hsame : drawsOn name first = drawsOn name second) :
    ∃ one two, (fromSeed seed).play first = some one ∧ (fromSeed seed).play second = some two ∧
      valuesOn name one.1 = valuesOn name two.1 ∧ one.2.stream name = two.2.stream name ∧
      ∃ loaded, deserialize one.2.serialize = .ok loaded ∧ loaded = one.2 ∧
        ∀ later, loaded.play later = one.2.play later := by
  obtain ⟨one, hone, hderived, hfirst⟩ := play_replays (derived_fromSeed seed) first
  obtain ⟨two, htwo, -, hsecond⟩ := play_replays (derived_fromSeed seed) second
  have heq := (hfirst name).symm.trans ((congrArg _ hsame).trans (hsecond name))
  rw [Option.some.injEq, Prod.mk.injEq] at heq
  exact ⟨one, two, hone, htwo, heq.1, heq.2, one.2, deserialize_serialize hderived, rfl,
    fun _ ↦ rfl⟩

/-- A run that draws from `b` first and reloads, and one that does not, draw alike from `a`. -/
theorem same_first_word : ∃ one two,
    (fromSeed 7).play [.draw "b" .nextU64, .reload, .draw "a" .nextU32] = some one ∧
      (fromSeed 7).play [.touch "a", .draw "a" .nextU32, .draw "b" .genBool] = some two ∧
      valuesOn "a" one.1 = valuesOn "a" two.1 := by
  obtain ⟨one, two, hone, htwo, hvalues, -⟩ := @stream_independence 7 "a"
    [.draw "b" .nextU64, .reload, .draw "a" .nextU32]
    [.touch "a", .draw "a" .nextU32, .draw "b" .genBool] (by decide)
  exact ⟨one, two, hone, htwo, hvalues⟩

end DeterministicRng

end Crpg.Core
