import Crpg.Net.Protocol
import Crpg.Sim.History

/-!
# Captured evidence

`crpg-server/src/capture.rs`. One record is kept for each accepted command: the symbolic fields of
its outcome, the envelopes it journaled, and the state every bound peer was shown.
-/

set_option autoImplicit false

namespace Crpg.Server

open Crpg.Core Crpg.Lib Crpg.Sim Crpg.Net

/-! ### Records -/

/-- The symbolic fields of one returned outcome. -/
structure CapturedOutcome where
  actor : EntityId
  target : EntityId
  ability : Ulid
  outcome : String
  damage : ℕ
deriving DecidableEq

/-- The health of one involved entity, as one peer may see it. -/
structure CapturedHealth where
  entity : NetId
  health : ℕ
  maxHealth : ℕ
  dead : Bool
deriving DecidableEq

/-- The turn as one peer may see it. -/
structure CapturedTurn where
  active : Option NetId
  round : ℕ
deriving DecidableEq

/-- What one peer was shown after one command. -/
structure CapturedView where
  epoch : SessionEpoch
  health : List CapturedHealth
  turn : Option CapturedTurn
deriving DecidableEq

/-- The evidence of one accepted command. -/
structure CapturedRecord where
  captureSeq : ℕ
  epoch : SessionEpoch
  lane : ℕ
  seq : ℕ
  historyStart : ℕ
  historyEnd : ℕ
  outcome : Option CapturedOutcome
  processedTick : ℕ
  events : List HistoryEnvelope
  views : List CapturedView
deriving DecidableEq

end Crpg.Server
