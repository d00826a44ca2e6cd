import Mathlib.Data.String.Basic
import Crpg.Lib.BTreeMap

/-!
# Deterministic randomness

`crpg-core/src/rng.rs`. A `Pcg32` stream steps a linear congruential state modulo `2^64` and
outputs 32 bits of it; `DeterministicRng` owns named streams derived from one seed.

`genRangeU32` redraws until a value reaches the rejection threshold. The loop carries fuel, one unit
for each state of the generator, and `none` would be a loop without end.
-/

set_option autoImplicit false

namespace Crpg.Core

open Crpg.Lib

def pcg32Multiplier : UInt64 := 6364136223846793005

def stateDomain : UInt64 := 0x243f6a8885a308d3

def streamDomain : UInt64 := 0x13198a2e03707344

/-- One PCG32-XSH-RR stream. -/
structure Pcg32 where
  state : UInt64
  inc : UInt64
deriving DecidableEq

/-- `u32::rotate_right`. -/
def rotateRight (value rotation : UInt32) : UInt32 :=
  if rotation % 32 = 0 then value
  else (value >>> (rotation % 32)) ||| (value <<< (32 - rotation % 32))

namespace Pcg32

def fromStateAndStream (state inc : UInt64) : Pcg32 := ⟨state, inc ||| 1⟩

def output (state : UInt64) : UInt32 :=
  rotateRight (((state >>> 18) ^^^ state) >>> 27).toUInt32 (state >>> 59).toUInt32

/-- Advances the stream and returns its next 32 bits. -/
def nextU32 (stream : Pcg32) : UInt32 × Pcg32 :=
  (output stream.state, { stream with state := stream.state * pcg32Multiplier + stream.inc })

/-- The smallest draw that is not rejected: `bound.wrapping_neg() % bound`. -/
def threshold (bound : UInt32) : UInt32 := (0 - bound) % bound

/-- The rejection loop of `gen_range_u32`, with fuel. -/
def redraw (bound : UInt32) : ℕ → Pcg32 → Option (UInt32 × Pcg32)
  | 0, _ => none
  | fuel + 1, stream =>
    let drawn := stream.nextU32
    if threshold bound ≤ drawn.1 then some (drawn.1 % bound, drawn.2) else redraw bound fuel drawn.2

/-- A value uniformly distributed below the bound. -/
def genRangeU32 (stream : Pcg32) (bound : UInt32) : Option (UInt32 × Pcg32) :=
  redraw bound (2 ^ 64) stream

end Pcg32

def splitmix64 (value : UInt64) : UInt64 :=
  let first := value + 0x9e3779b97f4a7c15
  let second := (first ^^^ (first >>> 30)) * 0xbf58476d1ce4e5b9
  let third := (second ^^^ (second >>> 27)) * 0x94d049bb133111eb
  third ^^^ (third >>> 31)

def utf8Bytes (text : String) : List UInt8 := text.toUTF8.data.toList

/-- `derive_stream`: the stream of a name under a seed. -/
def deriveStream (seed : UInt64) (name : String) : Pcg32 :=
  let start := seed ^^^ splitmix64 (UInt64.ofNat (utf8Bytes name).length)
  let mixed := (utf8Bytes name).foldl (fun mixed byte ↦ splitmix64 (mixed ^^^ byte.toUInt64)) start
  Pcg32.fromStateAndStream (splitmix64 (mixed ^^^ stateDomain))
    (splitmix64 (mixed ^^^ streamDomain) ||| 1)

/-- The simulation's single source of pseudo-randomness. -/
structure DeterministicRng where
  seed : UInt64
  streams : BTreeMap String Pcg32
deriving DecidableEq

namespace DeterministicRng

/-- An RNG with no touched streams. -/
def fromSeed (seed : UInt64) : DeterministicRng := ⟨seed, BTreeMap.empty⟩

def stream (rng : DeterministicRng) (name : String) : Pcg32 :=
  (rng.streams.get? name).getD (deriveStream rng.seed name)

/-- Writes a stream back after draws through the reference `stream` hands out. -/
def setStream (rng : DeterministicRng) (name : String) (stream : Pcg32) : DeterministicRng :=
  { rng with streams := rng.streams.insert name stream }

end DeterministicRng

end Crpg.Core
