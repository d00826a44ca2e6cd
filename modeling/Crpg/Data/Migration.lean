import Crpg.Data.Value
import Crpg.Lib.Call
import Crpg.Core.Arena
import Crpg.Core.Fixed

/-!
# Schema migrations

`crpg-data/src/migrations`: the registry of document families, the parsing of schema tags, the
dispatch of a value through its family's chain of steps, and the three steps the production registry
holds. Dispatch works on any registry: it selects the whole chain before it runs a step, and checks
the tag after each.

The typed decoding that ends `migrateDocument` and `readDocument` is the parameter `decodeCurrent`,
and the strict parser of bytes is `parse`.
-/

set_option autoImplicit false

namespace Crpg.Data

open Crpg.Core Crpg.Lib

/-- A value being migrated in place. -/
abbrev Migrating := Call Value DataError

/-- `Step`: a transformation of a value to the destination's tag. -/
abbrev Step := Migrating Unit

/-- `Edge`: one upgrade of a family. -/
structure Edge where
  fromVersion : ℕ
  toVersion : ℕ
  step : Step

/-- `Family`: a document type with its current version and its upgrades. -/
structure Family where
  schemaType : String
  current : ℕ
  edges : List Edge

abbrev Registry := List Family

/-! ### Tags -/

def isDigit (char : Char) : Bool := '0' ≤ char && char ≤ '9'

/-- One digit of a version, unless it passes `u32`. -/
def versionStep (version : Option ℕ) (digit : Char) : Option ℕ :=
  version.bind fun value ↦
    if u32Max < value * 10 + (digit.toNat - 48) then none
    else some (value * 10 + (digit.toNat - 48))

/-- The version of a text: a canonical decimal that fits `u32` and is not zero. -/
def parseVersion (text : List Char) : Option ℕ :=
  if text.isEmpty || !text.all isDigit then none
  else if 1 < text.length ∧ text.head? = some '0' then none
  else if 10 < text.length then none
  else match text.foldl versionStep (some 0) with
    | none => none
    | some 0 => none
    | some version => some version

def parseTag (tag : String) (registry : Registry) : Except DataError (ℕ × ℕ) :=
  if tag.toList.count '/' ≠ 1 then .error (.unsupportedSchema tag)
  else
    let typePart := String.ofList (tag.toList.takeWhile (· ≠ '/'))
    let versionText := (tag.toList.dropWhile (· ≠ '/')).tail
    match registry.findIdx? fun family ↦ family.schemaType = typePart with
    | none => .error (.unsupportedSchema tag)
    | some index =>
      match parseVersion versionText with
      | none => .error (.unsupportedSchema tag)
      | some version => .ok (index, version)

def versionTag (schemaType : String) (version : ℕ) : String :=
  schemaType ++ "/" ++ toString version

/-! ### Chains -/

/-- The loop of `validate_family` over the edges, with the source versions seen. -/
def validateEdges (family : Family) : List ℕ → List Edge → Bool
  | _, [] => true
  | seen, edge :: rest =>
    1 ≤ edge.fromVersion && edge.fromVersion + 1 ≤ u32Max &&
      edge.toVersion == edge.fromVersion + 1 && edge.toVersion ≤ family.current &&
      edge.fromVersion ∉ seen && validateEdges family (edge.fromVersion :: seen) rest

def validateFamily (family : Family) (originalTag : String) : Except DataError Unit :=
  if 1 ≤ family.current && validateEdges family [] family.edges then .ok ()
  else .error (.unsupportedSchema originalTag)

def collectSteps (family : Family) (originalTag : String) : ℕ → ℕ → Except DataError (List Step)
  | 0, _ => .ok []
  | remaining + 1, next =>
    match family.edges.find? fun edge ↦ edge.fromVersion = next with
    | none => .error (.unsupportedSchema originalTag)
    | some edge =>
      if edge.toVersion ≠ next + 1 then .error (.unsupportedSchema originalTag)
      else (collectSteps family originalTag remaining edge.toVersion).map (edge.step :: ·)

/-- `map_err` of a step to a failed migration. -/
def orFailed (step : Step) : Step := fun value ↦
  match step value with
  | .ok _ next => .ok () next
  | .err _ left => .err (.malformed "migration step failed") left
  | .fault why => .fault why

def checkTag (schemaType : String) (destination : ℕ) : Migrating Unit := do
  let value ← Call.get
  Call.failIf (value.schemaTag ≠ some (versionTag schemaType destination))
    (.malformed "migration broke the schema tag")

/-- The loop that runs a chain, up to a first destination. -/
def runSteps (schemaType : String) : ℕ → List Step → Migrating Unit
  | _, [] => pure ()
  | destination, step :: rest => do
    orFailed step
    checkTag schemaType destination
    runSteps schemaType (destination + 1) rest

def dispatch (registry : Registry) : Migrating Unit := do
  let value ← Call.get
  Call.ofExcept value.rejectNonIntegers
  let originalTag ← Call.okOr (.malformed "expected object with string schema") value.schemaTag
  let (index, version) ← Call.ofExcept (parseTag originalTag registry)
  let family ← Call.expect registry[index]?
  Call.ofExcept (validateFamily family originalTag)
  Call.failIf (family.current < version) (.unsupportedSchema originalTag)
  if version = family.current then return ()
  else
    let steps ← Call.ofExcept
      (collectSteps family originalTag (family.current - version) version)
    runSteps family.schemaType (version + 1) steps

/-! ### The production registry -/

/-- The members a step starts from, of a value of its tag. -/
def expectTag (document tag : String) : Migrating (List (String × Value)) := do
  let value ← Call.get
  let members ← Call.okOr (.malformed "expected object with string schema") value.asObject
  let current ← Call.okOr (.malformed "expected object with string schema")
    ((Value.getMember members "schema").bind Value.asStr)
  Call.failIf (current ≠ tag)
    (.malformed (document ++ " migration expects schema " ++ tag))
  return members

namespace Ability

def defaultDefense : Value := .object [("type", .string "actor_attribute")]

/-- The members of version two. -/
def upgraded (members : List (String × Value)) : List (String × Value) :=
  let members := Value.insertMember members "extra_costs" (.array [])
  let members := Value.insertMember members "ends_turn" (.bool true)
  let members := Value.insertMember members "defense" defaultDefense
  Value.insertMember members "schema" (.string "crpg.ability/2")

/-- `v1_to_v2` of abilities. -/
def v1ToV2 : Step := do
  let members ← expectTag "ability" "crpg.ability/1"
  Call.set (.object (upgraded members))

end Ability

namespace Ruleset

/-- The members of version two, with the pool that moves. -/
def upgraded (members : List (String × Value)) (pool : Value) : List (String × Value) :=
  let members := Value.removeMember members "action_pool"
  let members := Value.insertMember members "pools" (.array [pool])
  Value.insertMember members "schema" (.string "crpg.ruleset/2")

/-- `v1_to_v2` of rulesets. -/
def v1ToV2 : Step := do
  let members ← expectTag "ruleset" "crpg.ruleset/1"
  let pool ← Call.okOr (.malformed "ruleset migration missing action_pool")
    (Value.getMember members "action_pool")
  Call.set (.object (upgraded members pool))

end Ruleset

namespace Item

/-- The members of version two. -/
def upgraded (members : List (String × Value)) : List (String × Value) :=
  Value.insertMember members "schema" (.string "crpg.item/2")

/-- `v1_to_v2` of items. -/
def v1ToV2 : Step := do
  let members ← expectTag "item" "crpg.item/1"
  Call.set (.object (upgraded members))

end Item

/-- `REGISTRY`. -/
def productionRegistry : Registry :=
  [⟨"crpg.ability", 2, [⟨1, 2, Ability.v1ToV2⟩]⟩, ⟨"crpg.area", 1, []⟩,
    ⟨"crpg.assets-lock", 1, []⟩, ⟨"crpg.campaign", 1, []⟩, ⟨"crpg.campaign-lock", 1, []⟩,
    ⟨"crpg.creature", 1, []⟩, ⟨"crpg.dialogue", 1, []⟩, ⟨"crpg.effect", 1, []⟩,
    ⟨"crpg.encounter", 1, []⟩, ⟨"crpg.faction", 1, []⟩, ⟨"crpg.graph", 1, []⟩,
    ⟨"crpg.item", 2, [⟨1, 2, Item.v1ToV2⟩]⟩, ⟨"crpg.locale", 1, []⟩,
    ⟨"crpg.outcome-table", 1, []⟩, ⟨"crpg.placements", 1, []⟩, ⟨"crpg.quest", 1, []⟩,
    ⟨"crpg.ruleset", 2, [⟨1, 2, Ruleset.v1ToV2⟩]⟩, ⟨"crpg.triggers", 1, []⟩,
    ⟨"crpg.variables", 1, []⟩, ⟨"crpg.world", 1, []⟩]

/-! ### Reading and migrating -/

section Decoding

variable {Document : Type} (decodeCurrent : Value → Except DataError Document)

/-- `migrate_document`. The clone is published after the decoding; publishing a clone that equals
the value is no change. -/
def migrateDocument : Migrating Unit := do
  let value ← Call.get
  Call.ofExcept value.rejectNonIntegers
  match dispatch productionRegistry value with
  | .ok _ working =>
    let _ ← Call.ofExcept (decodeCurrent working)
    Call.set working
  | .err error _ => Call.fail error
  | .fault why => Call.stop why

/-- `read_document`, over the strict parser. -/
def readDocument (parse : List UInt8 → Except DataError Value) (bytes : List UInt8) :
    Result DataError Document :=
  match parse bytes with
  | .error error => .err error
  | .ok value =>
    match dispatch productionRegistry value with
    | .ok _ current => .ofExcept (decodeCurrent current)
    | .err error _ => .err error
    | .fault _ => .panic

end Decoding

end Crpg.Data
