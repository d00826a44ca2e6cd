import Crpg.Core.Fixed
import Mathlib.Data.List.Sort
import Mathlib.Data.Prod.Lex

/-!
# The event queue

`crpg-core/src/event.rs`. Envelopes stamped with the tick of the caller and a sequence number of
the queue; the sequence saturates. A simulation tick is a natural number here, advanced with
saturation by the world.
-/

set_option autoImplicit false

namespace Crpg.Core

/-- One queued event with the coordinates that order it. -/
structure EventEnvelope (P : Type*) where
  tick : ℕ
  seq : ℕ
  payload : P
deriving DecidableEq

/-- The queue: its envelopes in push order and the next sequence number. -/
structure EventQueue (P : Type*) where
  envelopes : List (EventEnvelope P)
  nextSeq : ℕ
deriving DecidableEq

namespace EventQueue

variable {P : Type*}

def new : EventQueue P := ⟨[], 0⟩

def push (queue : EventQueue P) (tick : ℕ) (payload : P) : EventQueue P :=
  ⟨queue.envelopes ++ [⟨tick, queue.nextSeq, payload⟩], saturatingAdd u64Max queue.nextSeq 1⟩

/-- Removes every envelope, in ascending order of tick and sequence. -/
def drain (queue : EventQueue P) : List (EventEnvelope P) × EventQueue P :=
  (queue.envelopes.insertionSort fun first second ↦
    toLex (first.tick, first.seq) ≤ toLex (second.tick, second.seq), { queue with envelopes := [] })

/-- Whether the queue holds no envelopes. -/
def isEmpty (queue : EventQueue P) : Bool := queue.envelopes.isEmpty

end EventQueue

end Crpg.Core
