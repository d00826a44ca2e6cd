import Crpg.Lib.Json
import Crpg.Sim.Area

/-!
# The authoritative history

`crpg-sim/src/history.rs` and the paired transfer of `area.rs`. A wrapper owns one world and
journals every transition of it. Each operation stages a world, drains its event queue, translates
what the controller observed, and commits world and envelopes together or not at all. The journal
keeps the contiguous suffix of sequences that are not acknowledged yet, with its byte total cached.

The envelopes are written as compact JSON, which gives their byte lengths. `HistoryWorld.decode` is
the loader: the visitors of the wrapper, the journal, the envelopes and the payloads, each with its
checks. The codec of the inner world is a parameter of both directions.
-/

set_option autoImplicit false

namespace Crpg.Sim

open Crpg.Core Crpg.Lib Crpg.Rules Crpg.Data

/-! ### Vocabulary -/

/-- The most envelopes one journal retains. -/
def maxHistoryEvents : ℕ := 4096

/-- The most envelope bytes one journal retains. -/
def maxHistoryBytes : ℕ := 1048576

/-- The most envelopes of one page. -/
def maxHistoryPage : ℕ := 256

/-- The most bytes of one retained text. -/
def maxHistoryStringBytes : ℕ := 256

/-- The newest wrapper version. -/
def historyVersion : ℕ := 2

/-- The version a new wrapper starts at. -/
def historyVersionV1 : ℕ := 1

/-- One authoritative fact. -/
inductive HistoryEvent
  | spawned (entity : EntityId)
  | despawned (entity : EntityId)
  | died (entity : EntityId)
  | actionResolved (actor target : EntityId) (ability : Ulid) (outcome : String) (damage : ℕ)
  | turnStarted (actor : EntityId) (round : ℕ)
  | encounterEnded (encounter : Ulid) (round : ℕ)
  | roundStarted (round : ℕ)
  | modeChanged (mode : EncounterMode) (round : ℕ)
  | orderEnded (actor : EntityId)
deriving DecidableEq

/-- Whether an event belongs to version 2 only. -/
def HistoryEvent.isV2 : HistoryEvent → Bool
  | .roundStarted _ => true
  | .modeChanged _ _ => true
  | .orderEnded _ => true
  | _ => false

/-- One journaled event with the coordinates that order it. -/
structure HistoryEnvelope where
  tick : ℕ
  seq : ℕ
  payload : HistoryEvent
deriving DecidableEq

inductive HistoryError
  | combat (error : CombatError)
  | invalidPageLimit (limit : ℕ)
  | staleCursor (requested acknowledged : ℕ)
  | futureCursor (requested last : ℕ)
  | sequenceExhausted
  | eventLimit
  | byteLimit
  | stringLimit
deriving DecidableEq

/-! ### JSON -/

/-- The wire object of an identity. -/
def encodeEntity (id : EntityId) : Json :=
  .map [("index", .number id.index), ("generation", .number id.generation)]

/-- The wire text of an authored identity. -/
def encodeUlid (id : Ulid) : Json := .text (ulidText id)

def encodeMode : EncounterMode → Json
  | .turnBased => .text "turn_based"
  | .realTime => .text "real_time"

/-- An adjacent-tagged object. -/
def tagged (tag : String) (fields : List (String × Json)) : Json :=
  .map [("type", .text tag), ("value", .map fields)]

/-- The wire object of an event. -/
def HistoryEvent.encode : HistoryEvent → Json
  | .spawned entity => tagged "spawned" [("entity", encodeEntity entity)]
  | .despawned entity => tagged "despawned" [("entity", encodeEntity entity)]
  | .died entity => tagged "died" [("entity", encodeEntity entity)]
  | .actionResolved actor target ability outcome damage => tagged "action_resolved"
      [("actor", encodeEntity actor), ("target", encodeEntity target),
        ("ability", encodeUlid ability), ("outcome", .text outcome), ("damage", .number damage)]
  | .turnStarted actor round => tagged "turn_started"
      [("actor", encodeEntity actor), ("round", .number round)]
  | .encounterEnded encounter round => tagged "encounter_ended"
      [("encounter", encodeUlid encounter), ("round", .number round)]
  | .roundStarted round => tagged "round_started" [("round", .number round)]
  | .modeChanged mode round => tagged "mode_changed"
      [("mode", encodeMode mode), ("round", .number round)]
  | .orderEnded actor => tagged "order_ended" [("actor", encodeEntity actor)]

/-- The wire object of an envelope. -/
def HistoryEnvelope.encode (envelope : HistoryEnvelope) : Json :=
  .map [("tick", .number envelope.tick), ("seq", .number envelope.seq),
    ("payload", envelope.payload.encode)]

/-- `envelope_len`: the bytes of an envelope's compact text. -/
def envelopeLen (envelope : HistoryEnvelope) : ℕ := envelope.encode.size

/-! ### The journal -/

/-- The retained envelopes, oldest first, with their byte total. -/
structure Journal where
  envelopes : List HistoryEnvelope
  bytes : ℕ
deriving DecidableEq

namespace Journal

def new : Journal := ⟨[], 0⟩

/-- The number of retained envelopes. -/
def len (journal : Journal) : ℕ := journal.envelopes.length

def append (journal : Journal) (envelopes : List HistoryEnvelope) (total : ℕ) : Journal :=
  ⟨journal.envelopes ++ envelopes, total⟩

/-- Drops the first envelopes with their bytes; emptying the journal resets the total. -/
def drainPrefix (journal : Journal) (count : ℕ) : Journal :=
  if count = journal.envelopes.length then new
  else
    ⟨journal.envelopes.drop count,
      journal.bytes - ((journal.envelopes.take count).map envelopeLen).sum⟩

end Journal

/-- One privately owned world with its bounded journal. -/
structure HistoryWorld where
  version : ℕ
  world : World
  acknowledged : ℕ
  nextSeq : ℕ
  pending : Journal
deriving DecidableEq

/-! ### Translation -/

def translateLegacy : SimEvent → HistoryEvent
  | .spawned entity => .spawned entity
  | .despawned entity => .despawned entity
  | .died entity => .died entity

/-- `outcome_text`: the symbolic text of an outcome. -/
def outcomeText : Outcome → String
  | .criticalSuccess => "critical_success"
  | .success => "success"
  | .failure => "failure"
  | .criticalFailure => "critical_failure"
  | .custom label => "custom:" ++ toString label.toNat

def resolvedEvent (produced : ActionOutcome) : HistoryEvent :=
  .actionResolved produced.actor produced.target produced.ability (outcomeText produced.outcome)
    produced.damage

def turnEvents (facts : TransitionFacts) : List HistoryEvent :=
  (facts.turnStarted.map fun turn ↦ HistoryEvent.turnStarted turn.1 turn.2).toList

def endEvents (facts : TransitionFacts) : List HistoryEvent :=
  (facts.encounterEnded.map fun ended ↦ HistoryEvent.encounterEnded ended.1 ended.2).toList

/-- `push_lead`: the mode switch and the real-time round start. -/
def pushLead (facts : TransitionFacts) : List HistoryEvent :=
  (facts.modeChanged.map fun change ↦ HistoryEvent.modeChanged change.1 change.2).toList ++
    (facts.roundStarted.map HistoryEvent.roundStarted).toList

/-- `push_transition`: the lead, then the turn that started, else the end. -/
def pushTransition (facts : TransitionFacts) : List HistoryEvent :=
  pushLead facts ++ if facts.turnStarted.isSome then turnEvents facts else endEvents facts

def executionEvents : List SimEvent → List TickEvent → Result HistoryError (List HistoryEvent)
  | deaths, [] => .ok (deaths.map translateLegacy)
  | deaths, .orderEnded actor :: rest =>
    (executionEvents deaths rest).bind fun others ↦ .ok (.orderEnded actor :: others)
  | deaths, .resolved produced :: rest =>
    if produced.targetDied then
      match deaths with
      | [] => .panic
      | died :: others => (executionEvents others rest).bind fun events ↦
          .ok (resolvedEvent produced :: translateLegacy died :: events)
    else (executionEvents deaths rest).bind fun events ↦ .ok (resolvedEvent produced :: events)

def tickEvents (facts : TickFacts) (deaths : List SimEvent) :
    Result HistoryError (List HistoryEvent) :=
  (executionEvents deaths facts.events).bind fun executed ↦
    .ok (pushLead facts.transitions ++ turnEvents facts.transitions ++ executed ++
      endEvents facts.transitions)

namespace World

def drainEvents (world : World) : List SimEvent × World :=
  (world.events.drain.1.map EventEnvelope.payload, { world with events := world.events.drain.2 })

/-- Whether the encounter of a world can run in real time. -/
def hasClock (world : World) : Bool := world.combat.any fun combat ↦ combat.clock.isSome

end World

namespace HistoryWorld

/-! ### Commits -/

def checkText : HistoryEvent → Result HistoryError Unit
  | .actionResolved _ _ _ outcome _ =>
    Result.failIf (outcome.utf8ByteSize > maxHistoryStringBytes) .stringLimit
  | _ => .ok ()

/-- The staged additions of a commit: its envelopes, the byte total and the next sequence. -/
structure Staged where
  envelopes : List HistoryEnvelope
  bytes : ℕ
  seq : ℕ

def stageEvent (tick : ℕ) (staged : Staged) (event : HistoryEvent) : Result HistoryError Staged :=
  let envelope : HistoryEnvelope := ⟨tick, staged.seq, event⟩
  let bytes := staged.bytes + envelopeLen envelope
  (Result.failIf (bytes > maxHistoryBytes) HistoryError.byteLimit).bind fun _ ↦
    (Result.failIf (staged.seq + 1 > u64Max) HistoryError.sequenceExhausted).bind fun _ ↦
      .ok ⟨staged.envelopes ++ [envelope], bytes, staged.seq + 1⟩

/-- The version after a commit: real-time capability and a version 2 event upgrade it for good. -/
def upgraded (version : ℕ) (world : World) (envelopes : List HistoryEnvelope) : ℕ :=
  if version < historyVersion ∧
      (world.hasClock = true ∨ (envelopes.any fun envelope ↦ envelope.payload.isV2) = true) then
    historyVersion
  else version

/-- `commit`: checks texts, sequence range, count and bytes in order, and publishes the staged
world with the new envelopes. -/
def commit (history : HistoryWorld) (world : World) (events : List HistoryEvent) (tick : ℕ) :
    Result HistoryError HistoryWorld := do
  Result.forM checkText events
  Result.failIf (history.nextSeq + events.length > u64Max) .sequenceExhausted
  Result.failIf (history.pending.len + events.length > maxHistoryEvents) .eventLimit
  let staged ← Result.foldlM (stageEvent tick) ⟨[], history.pending.bytes, history.nextSeq⟩ events
  pure
    { version := upgraded history.version world staged.envelopes
      world := world
      acknowledged := history.acknowledged
      nextSeq := history.nextSeq + events.length
      pending := history.pending.append staged.envelopes staged.bytes }

def commitDrained (history : HistoryWorld) (staged : World)
    (collect : List SimEvent → Result HistoryError (List HistoryEvent)) :
    Result HistoryError HistoryWorld :=
  (collect staged.drainEvents.1).bind fun events ↦
    commit history staged.drainEvents.2 events staged.drainEvents.2.tick

def translated (drained : List SimEvent) : Result HistoryError (List HistoryEvent) :=
  .ok (drained.map translateLegacy)

/-! ### Operations -/

def new (seed : UInt64) : HistoryWorld := ⟨historyVersionV1, World.new seed, 0, 1, Journal.new⟩

def newInArea (seed : UInt64) (area : Ulid) : HistoryWorld :=
  { new seed with world := World.newInArea seed area }

/-- `spawn_with_creature`: mints an entity with its record, if there is one. -/
def spawnWithCreature (history : HistoryWorld) (data : EntityMeta)
    (creature : Option CreatureState) : Result HistoryError (EntityId × HistoryWorld) := do
  let spawned ← Result.expect (history.world.spawn data)
  let next ← commitDrained history
    { spawned.2 with creatures := insertSome spawned.2.creatures spawned.1 creature } translated
  pure (spawned.1, next)

def spawn (history : HistoryWorld) (data : EntityMeta) :
    Result HistoryError (EntityId × HistoryWorld) :=
  spawnWithCreature history data none

/-- Journaled registration. -/
def registerCreature (history : HistoryWorld) (spec : CreatureSpec) :
    Result HistoryError (EntityId × HistoryWorld) := do
  let registered ← (Crpg.Sim.registerCreature history.world spec).mapErr .combat
  let next ← commitDrained history registered.2 translated
  pure (registered.1, next)

def despawn (history : HistoryWorld) (entity : EntityId) :
    Result HistoryError (Bool × HistoryWorld) := do
  let removed ← (despawnTracked history.world entity).mapErr .combat
  let next ← commitDrained history removed.2 fun drained ↦
    .ok (drained.map translateLegacy ++ pushTransition removed.1.2)
  pure (removed.1.1, next)

/-- One fixed simulation step. -/
def tick (history : HistoryWorld) : Result HistoryError HistoryWorld := do
  let ticked ← (tickTracked history.world).mapErr .combat
  commitDrained history ticked.2 (tickEvents ticked.1)

def startEncounterInMode (history : HistoryWorld) (spec : EncounterSpec) (mode : EncounterMode) :
    Result HistoryError HistoryWorld := do
  let started ← (startEncounterInModeTracked history.world spec mode).mapErr .combat
  commitDrained history started.2 fun drained ↦
    .ok (drained.map translateLegacy ++
      (started.1.initialTurn.map fun turn ↦ HistoryEvent.turnStarted turn.1 turn.2).toList)

/-- Applies one authoritative action. -/
def performAction (history : HistoryWorld) (action : CombatAction) :
    Result HistoryError (Option ActionOutcome × HistoryWorld) := do
  let performed ← (performActionTracked history.world action).mapErr .combat
  let next ← commitDrained history performed.2 fun drained ↦
    .ok ((performed.1.1.map resolvedEvent).toList ++ drained.map translateLegacy ++
      pushTransition performed.1.2)
  pure (performed.1.1, next)

/-- Releases the active encounter. -/
def endEncounter (history : HistoryWorld) :
    Result HistoryError (EncounterSummary × HistoryWorld) := do
  let released ← (Crpg.Sim.endEncounter history.world).mapErr .combat
  let next ← commitDrained history released.2 translated
  pure (released.1, next)

/-- A journaled mode request, which emits no event. -/
def requestMode (history : HistoryWorld) (mode : EncounterMode) :
    Result HistoryError HistoryWorld := do
  let requested ← (Crpg.Sim.requestMode history.world mode).mapErr .combat
  commitDrained history requested fun _ ↦ .ok []

def lastSequence (history : HistoryWorld) : ℕ := history.nextSeq - 1

def readAfter (history : HistoryWorld) (after limit : ℕ) :
    Result HistoryError (List HistoryEnvelope) := do
  Result.failIf (limit = 0 ∨ limit > maxHistoryPage) (.invalidPageLimit limit)
  Result.failIf (after < history.acknowledged) (.staleCursor after history.acknowledged)
  Result.failIf (after > history.lastSequence) (.futureCursor after history.lastSequence)
  pure ((history.pending.envelopes.drop (after - history.acknowledged)).take limit)

/-- Advances the watermark, dropping the acknowledged envelopes. -/
def acknowledge (history : HistoryWorld) (through : ℕ) : Result HistoryError HistoryWorld :=
  if through > history.lastSequence then .err (.futureCursor through history.lastSequence)
  else if through ≤ history.acknowledged then .ok history
  else .ok { history with
    acknowledged := through
    pending := history.pending.drainPrefix (through - history.acknowledged) }

def attachTransform (history : HistoryWorld) (entity : EntityId) (transform : Option Transform) :
    HistoryWorld :=
  { history with world := { history.world with
    transforms := insertSome history.world.transforms entity transform } }

end HistoryWorld

/-- Every failure of a transfer between two histories. -/
inductive TransferError
  | area (error : AreaError)
  | sourceHistory (error : HistoryError)
  | destinationHistory (error : HistoryError)
deriving DecidableEq

/-- `transfer_history_entity`: the transfer of two histories, journaled in both or in neither. -/
def transferHistoryEntity (source destination : HistoryWorld) (entity : EntityId) :
    Result TransferError (EntityId × HistoryWorld × HistoryWorld) := do
  (transferPreflight source.world destination.world entity).mapErr .area
  let data ← Result.expect (source.world.entities.get entity)
  let removed ← (source.despawn entity).mapErr .sourceHistory
  let moved ← (destination.spawnWithCreature data
    (source.world.creatures.get? entity)).mapErr .destinationHistory
  pure (moved.1, removed.2,
    moved.2.attachTransform moved.1 (source.world.transforms.get? entity))

/-! ### Loading -/

/-- The text of a missing field. -/
def missing {V : Type*} (what key : String) : Option V → Except String V
  | some value => .ok value
  | none => .error (what ++ " misses `" ++ key ++ "`")

/-- The identity of a wire object; an arena issues neither generation zero nor the retired one. -/
def decodeEntity (value : Json) : Except String EntityId := do
  let seen ← visitFields (fun key ↦
      if key = "index" ∨ key = "generation" then some Json.asNumber else none)
    (fun key ↦ "duplicate field `" ++ key ++ "`") "unknown field" (← value.asMap) []
  let index ← missing "entity" "index" (fieldOf seen "index")
  let generation ← missing "entity" "generation" (fieldOf seen "generation")
  if generation = 0 then .error "generation 0 is never issued"
  else if generation = retiredGeneration then .error "generation is the retired tombstone"
  else .ok ⟨index, generation⟩

/-- The authored identity of a wire text. -/
def decodeUlid (value : Json) : Except String Ulid := do
  match parseUlid (← value.asText) with
  | .ok id => .ok id
  | .error _ => .error "invalid ulid"

/-- The mode of a wire text. -/
def decodeMode (value : Json) : Except String EncounterMode := do
  let text ← value.asText
  if text = "turn_based" then .ok .turnBased
  else if text = "real_time" then .ok .realTime
  else .error "unknown variant"

/-- `is_valid_outcome`: the four fixed words, or a custom label without leading zeros. -/
def isValidOutcome (text : String) : Bool :=
  text = "critical_success" || text = "success" || text = "failure" || text = "critical_failure" ||
    ("custom:".toList.isPrefixOf text.toList &&
      let rest := text.toList.drop 7
      !rest.isEmpty && rest.length ≤ 3 && rest.all Char.isDigit &&
        !(1 < rest.length && rest.head? = some '0') &&
        decide (rest.foldl (fun number digit ↦ number * 10 + (digit.toNat - 48)) 0 ≤ 255))

/-- `deserialize_bounded_outcome`: a text within the byte limit. -/
def decodeOutcome (value : Json) : Except String String := do
  let text ← value.asText
  if text.utf8ByteSize > maxHistoryStringBytes then .error "history outcome exceeds 256 bytes"
  else .ok text

inductive PayloadField
  | entity (id : EntityId)
  | ulid (id : Ulid)
  | text (value : String)
  | number (value : ℕ)
  | mode (value : EncounterMode)

namespace PayloadField

def decoder (key : String) : Json → Except String PayloadField :=
  if key = "entity" ∨ key = "actor" ∨ key = "target" then
    fun value ↦ (decodeEntity value).map PayloadField.entity
  else if key = "ability" ∨ key = "encounter" then
    fun value ↦ (decodeUlid value).map PayloadField.ulid
  else if key = "outcome" then fun value ↦ (decodeOutcome value).map PayloadField.text
  else if key = "mode" then fun value ↦ (decodeMode value).map PayloadField.mode
  else fun value ↦ value.asNumber.map PayloadField.number

def asEntity : Option PayloadField → Option EntityId
  | some (entity id) => some id
  | _ => none

/-- An authored identity field. -/
def asUlid : Option PayloadField → Option Ulid
  | some (ulid id) => some id
  | _ => none

def asString : Option PayloadField → Option String
  | some (text value) => some value
  | _ => none

def asCount : Option PayloadField → Option ℕ
  | some (number value) => some value
  | _ => none

def asMode : Option PayloadField → Option EncounterMode
  | some (mode value) => some value
  | _ => none

end PayloadField

/-- The map visitor of one payload, over its keys. -/
def visitPayload (keys : List String) (value : Json) :
    Except String (List (String × PayloadField)) := do
  visitFields (fun key ↦ if key ∈ keys then some (PayloadField.decoder key) else none)
    (fun key ↦ "duplicate history payload field `" ++ key ++ "`") "unknown history payload field"
    (← value.asMap) []

def missingPayload {V : Type*} (key : String) : Option V → Except String V :=
  missing "history payload" key

def decodePayload (tag : String) (value : Json) : Except String HistoryEvent := do
  match tag with
  | "spawned" =>
    let seen ← visitPayload ["entity"] value
    return .spawned (← missingPayload "entity" (PayloadField.asEntity (fieldOf seen "entity")))
  | "despawned" =>
    let seen ← visitPayload ["entity"] value
    return .despawned (← missingPayload "entity" (PayloadField.asEntity (fieldOf seen "entity")))
  | "died" =>
    let seen ← visitPayload ["entity"] value
    return .died (← missingPayload "entity" (PayloadField.asEntity (fieldOf seen "entity")))
  | "action_resolved" =>
    let seen ← visitPayload ["actor", "target", "ability", "outcome", "damage"] value
    let actor ← missingPayload "actor" (PayloadField.asEntity (fieldOf seen "actor"))
    let target ← missingPayload "target" (PayloadField.asEntity (fieldOf seen "target"))
    let ability ← missingPayload "ability" (PayloadField.asUlid (fieldOf seen "ability"))
    let outcome ← missingPayload "outcome" (PayloadField.asString (fieldOf seen "outcome"))
    let damage ← missingPayload "damage" (PayloadField.asCount (fieldOf seen "damage"))
    if isValidOutcome outcome then return .actionResolved actor target ability outcome damage
    else .error "history outcome names no known outcome"
  | "turn_started" =>
    let seen ← visitPayload ["actor", "round"] value
    let actor ← missingPayload "actor" (PayloadField.asEntity (fieldOf seen "actor"))
    return .turnStarted actor
      (← missingPayload "round" (PayloadField.asCount (fieldOf seen "round")))
  | "encounter_ended" =>
    let seen ← visitPayload ["encounter", "round"] value
    let encounter ← missingPayload "encounter" (PayloadField.asUlid (fieldOf seen "encounter"))
    return .encounterEnded encounter
      (← missingPayload "round" (PayloadField.asCount (fieldOf seen "round")))
  | "round_started" =>
    let seen ← visitPayload ["round"] value
    return .roundStarted (← missingPayload "round" (PayloadField.asCount (fieldOf seen "round")))
  | "mode_changed" =>
    let seen ← visitPayload ["mode", "round"] value
    let mode ← missingPayload "mode" (PayloadField.asMode (fieldOf seen "mode"))
    return .modeChanged mode
      (← missingPayload "round" (PayloadField.asCount (fieldOf seen "round")))
  | "order_ended" =>
    let seen ← visitPayload ["actor"] value
    return .orderEnded (← missingPayload "actor" (PayloadField.asEntity (fieldOf seen "actor")))
  | _ => .error "unknown history event type"

/-- `PayloadVisitor`: the tag before the value, and nothing after it. -/
def HistoryEvent.decode (value : Json) : Except String HistoryEvent := do
  match ← value.asMap with
  | ("type", tag) :: rest =>
    let tag ← tag.asText
    match rest with
    | ("value", payload) :: more =>
      let event ← decodePayload tag payload
      if more.isEmpty then .ok event else .error "unknown history payload field"
    | _ => .error "history payload requires `value` after `type`"
  | _ => .error "history payload requires `type` before `value`"

inductive EnvelopeField
  | number (value : ℕ)
  | payload (event : HistoryEvent)

namespace EnvelopeField

def decoder (key : String) : Option (Json → Except String EnvelopeField) :=
  if key = "tick" ∨ key = "seq" then some fun value ↦ value.asNumber.map number
  else if key = "payload" then some fun value ↦ (HistoryEvent.decode value).map payload
  else none

def asCount : Option EnvelopeField → Option ℕ
  | some (number value) => some value
  | _ => none

def asPayload : Option EnvelopeField → Option HistoryEvent
  | some (payload event) => some event
  | _ => none

end EnvelopeField

/-- `EnvelopeVisitor`. -/
def HistoryEnvelope.decode (value : Json) : Except String HistoryEnvelope := do
  let seen ← visitFields EnvelopeField.decoder
    (fun key ↦ "duplicate history envelope field `" ++ key ++ "`")
    "unknown history envelope field" (← value.asMap) []
  let tick ← missing "history envelope" "tick" (EnvelopeField.asCount (fieldOf seen "tick"))
  let seq ← missing "history envelope" "seq" (EnvelopeField.asCount (fieldOf seen "seq"))
  let payload ← missing "history envelope" "payload"
    (EnvelopeField.asPayload (fieldOf seen "payload"))
  return ⟨tick, seq, payload⟩

/-- `PendingSeqVisitor`: rejects an excess entry before decoding it, and the bytes past the bound
before retaining an envelope. -/
def decodePending : List Json → List HistoryEnvelope → ℕ → Except String Journal
  | [], out, bytes => .ok ⟨out, bytes⟩
  | item :: rest, out, bytes =>
    if out.length ≥ maxHistoryEvents then .error "history journal exceeds 4096 events"
    else match HistoryEnvelope.decode item with
      | .error error => .error error
      | .ok envelope =>
        if bytes + envelopeLen envelope > maxHistoryBytes then
          .error "history journal exceeds its byte budget"
        else decodePending rest (out ++ [envelope]) (bytes + envelopeLen envelope)

/-- The loop of `validate_journal` over the expected sequence and the tick before. -/
def validateEntries (worldTick : ℕ) : List HistoryEnvelope → ℕ → Option ℕ → Except String ℕ
  | [], expected, _ => .ok expected
  | envelope :: rest, expected, previous =>
    if envelope.seq ≠ expected then .error "history journal is not a contiguous suffix"
    else if envelope.seq = 0 ∨ envelope.seq = u64Max then .error "history sequence out of range"
    else if previous.any fun before ↦ envelope.tick < before then .error "history ticks decrease"
    else if envelope.tick > worldTick then .error "history event ticks after its world"
    else if expected + 1 > u64Max then .error "history sequence overflows"
    else validateEntries worldTick rest (expected + 1) (some envelope.tick)

def validateJournal (pending : List HistoryEnvelope) (acknowledged nextSeq worldTick : ℕ) :
    Except String Unit :=
  if pending.isEmpty then
    if acknowledged + 1 > u64Max ∨ acknowledged + 1 ≠ nextSeq then
      .error "history journal is not a contiguous suffix"
    else .ok ()
  else if acknowledged + 1 > u64Max then .error "history sequence overflows"
  else match validateEntries worldTick pending (acknowledged + 1) none with
    | .error error => .error error
    | .ok expected =>
      if expected ≠ nextSeq then .error "history journal is not a contiguous suffix" else .ok ()

inductive WrapperField
  | number (value : ℕ)
  | world (value : World)
  | journal (value : Journal)

namespace WrapperField

def decoder (decodeWorld : Json → Except String World) (key : String) :
    Option (Json → Except String WrapperField) :=
  if key = "version" ∨ key = "acknowledged" ∨ key = "next_seq" then
    some fun value ↦ value.asNumber.map number
  else if key = "world" then some fun value ↦ (decodeWorld value).map world
  else if key = "pending" then
    some fun value ↦ do return journal (← decodePending (← value.asList) [] 0)
  else none

def asCount : Option WrapperField → Option ℕ
  | some (number value) => some value
  | _ => none

def asWorld : Option WrapperField → Option World
  | some (world value) => some value
  | _ => none

def asJournal : Option WrapperField → Option Journal
  | some (journal value) => some value
  | _ => none

end WrapperField

namespace HistoryWorld

/-- The wire object of a wrapper, with the wire value of its world. -/
def encode (encodeWorld : World → Json) (history : HistoryWorld) : Json :=
  .map [("version", .number history.version), ("world", encodeWorld history.world),
    ("acknowledged", .number history.acknowledged), ("next_seq", .number history.nextSeq),
    ("pending", .list (history.pending.envelopes.map HistoryEnvelope.encode))]

/-- The checks of `WrapperVisitor` after every key is read. -/
def checkWrapper (history : HistoryWorld) : Except String Unit :=
  if history.version ≠ historyVersionV1 ∧ history.version ≠ historyVersion then
    .error "unknown history version"
  else if history.version = historyVersionV1 ∧
      (history.pending.envelopes.any fun envelope ↦ envelope.payload.isV2) = true then
    .error "history v1 journal holds a v2 event"
  else if history.version = historyVersionV1 ∧ history.world.hasClock = true then
    .error "history v1 wrapper holds a real-time-capable encounter"
  else if history.nextSeq = 0 then .error "history next sequence must not be zero"
  else if history.acknowledged ≥ history.nextSeq then
    .error "history acknowledgement must precede its next sequence"
  else if history.world.events.isEmpty = false then
    .error "history wrapper holds a nonempty inner event queue"
  else validateJournal history.pending.envelopes history.acknowledged history.nextSeq
    history.world.tick

/-- `WrapperVisitor`, over the decoder of the inner world. -/
def decode (decodeWorld : Json → Except String World) (value : Json) :
    Except String HistoryWorld := do
  let seen ← visitFields (WrapperField.decoder decodeWorld)
    (fun key ↦ "duplicate history wrapper field `" ++ key ++ "`") "unknown history wrapper field"
    (← value.asMap) []
  let what := "history wrapper"
  let version ← missing what "version" (WrapperField.asCount (fieldOf seen "version"))
  let world ← missing what "world" (WrapperField.asWorld (fieldOf seen "world"))
  let acknowledged ← missing what "acknowledged"
    (WrapperField.asCount (fieldOf seen "acknowledged"))
  let nextSeq ← missing what "next_seq" (WrapperField.asCount (fieldOf seen "next_seq"))
  let pending ← missing what "pending" (WrapperField.asJournal (fieldOf seen "pending"))
  let history : HistoryWorld := ⟨version, world, acknowledged, nextSeq, pending⟩
  checkWrapper history
  return history

end HistoryWorld

/-- The histories the operations reach from empty ones. -/
inductive HistoryReachable : HistoryWorld → Prop
  | new (seed : UInt64) : HistoryReachable (HistoryWorld.new seed)
  | newInArea (seed : UInt64) (area : Ulid) : HistoryReachable (HistoryWorld.newInArea seed area)
  | spawn {history next : HistoryWorld} {data : EntityMeta} {id : EntityId}
      (before : HistoryReachable history) (returned : history.spawn data = .ok (id, next)) :
      HistoryReachable next
  | register {history next : HistoryWorld} {spec : CreatureSpec} {id : EntityId}
      (before : HistoryReachable history)
      (returned : history.registerCreature spec = .ok (id, next)) : HistoryReachable next
  | despawn {history next : HistoryWorld} {id : EntityId} {removed : Bool}
      (before : HistoryReachable history) (returned : history.despawn id = .ok (removed, next)) :
      HistoryReachable next
  | tick {history next : HistoryWorld} (before : HistoryReachable history)
      (returned : history.tick = .ok next) : HistoryReachable next
  | start {history next : HistoryWorld} {spec : EncounterSpec} {mode : EncounterMode}
      (before : HistoryReachable history)
      (returned : history.startEncounterInMode spec mode = .ok next) : HistoryReachable next
  | perform {history next : HistoryWorld} {action : CombatAction} {outcome : Option ActionOutcome}
      (before : HistoryReachable history)
      (returned : history.performAction action = .ok (outcome, next)) : HistoryReachable next
  | endEncounter {history next : HistoryWorld} {summary : EncounterSummary}
      (before : HistoryReachable history)
      (returned : history.endEncounter = .ok (summary, next)) : HistoryReachable next
  | requestMode {history next : HistoryWorld} {mode : EncounterMode}
      (before : HistoryReachable history) (returned : history.requestMode mode = .ok next) :
      HistoryReachable next
  | acknowledge {history next : HistoryWorld} {through : ℕ} (before : HistoryReachable history)
      (returned : history.acknowledge through = .ok next) : HistoryReachable next
  | transferOut {source destination left entered : HistoryWorld} {entity moved : EntityId}
      (sourceBefore : HistoryReachable source) (destinationBefore : HistoryReachable destination)
      (returned : transferHistoryEntity source destination entity = .ok (moved, left, entered)) :
      HistoryReachable left
  | transferIn {source destination left entered : HistoryWorld} {entity moved : EntityId}
      (sourceBefore : HistoryReachable source) (destinationBefore : HistoryReachable destination)
      (returned : transferHistoryEntity source destination entity = .ok (moved, left, entered)) :
      HistoryReachable entered

end Crpg.Sim
