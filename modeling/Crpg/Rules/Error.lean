import Crpg.Core.Interner

/-!
# Errors and bounds of the rules kernel

`crpg-rules/src/error.rs` and the bounds of `crpg-rules/src/lib.rs`. An error is a code, a
diagnostic path, and the reported cycle for the code `cycle` alone.
-/

set_option autoImplicit false

namespace Crpg.Rules

open Crpg.Core

inductive RulesErrorCode
  | invalidName
  | limitExceeded
  | duplicateStat
  | duplicateModifier
  | duplicateTag
  | invalidEnum
  | unknownStat
  | unknownModifierType
  | unresolvedHandle
  | typeMismatch
  | invalidOperation
  | invalidClamp
  | derivedBase
  | missingBase
  | entityMismatch
  | cycle
  | divisionByZero
  | invalidDice
  | invalidStream
  | invalidOutcomeTable
  | invalidResolution
  | invalidTarget
  | missingEntity
  | invalidResource
  | insufficientResource
deriving DecidableEq

structure RulesError where
  code : RulesErrorCode
  location : String
  cycle : List StatId
deriving DecidableEq

namespace RulesError

/-- An error without a cycle. -/
def «at» (code : RulesErrorCode) (location : String) : RulesError := ⟨code, location, []⟩

def ofCycle (location : String) (members : List StatId) : RulesError := ⟨.cycle, location, members⟩

end RulesError

/-- Definitions, block entries and persisted entries in one set. -/
def maxStats : ℕ := 1024

def maxTags : ℕ := 1024

def maxEnumVariants : ℕ := 1024

/-- Stacking-policy entries in one pipeline. -/
def maxPolicies : ℕ := 1024

def maxModifiers : ℕ := 4096

/-- Nodes in one derived expression. -/
def maxExprNodes : ℕ := 4096

/-- Expression nodes in one definition set. -/
def maxTotalExprNodes : ℕ := 65536

/-- Expression tree depth. -/
def maxExprDepth : ℕ := 32

/-- Longest stat dependency path, endpoints included. -/
def maxDerivedDepth : ℕ := 128

def maxConditionNodes : ℕ := 256

def maxConditionDepth : ℕ := 32

def maxDiceInputBytes : ℕ := 128

def maxDiceCount : ℕ := 1024

def maxDieSides : ℕ := 1000000

def maxOutcomeBands : ℕ := 256

/-- Natural-face rules in one outcome table. -/
def maxNaturalRules : ℕ := 256

def maxRngStreamBytes : ℕ := 256

end Crpg.Rules
