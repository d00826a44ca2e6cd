import Crpg.Lib.BTreeMap
import Mathlib.Data.String.Basic

/-!
# JSON values of documents

`serde_json`'s values as `crpg-data` reads them: integers and floats apart, since documents hold no
floats, and the members of an object by ascending key. `rejectNonIntegers` is the check every
migration starts with.
-/

set_option autoImplicit false

namespace Crpg.Data

open Crpg.Lib

/-- `serde_json::Value`: a number is an integer or a float, which stands as its bits. -/
inductive Value
  | null
  | bool (value : Bool)
  | integer (value : ℤ)
  | float (bits : UInt64)
  | string (text : String)
  | array (items : List Value)
  | object (members : List (String × Value))

/-- The failures of `crpg-data` that the reader and the migrations meet. The locks' and the combat
documents' own failures are `invalid`. -/
inductive DataError
  | malformed (message : String)
  | unsupportedSchema (found : String)
  | invalid (message : String)
deriving DecidableEq

namespace Value

def asObject : Value → Option (List (String × Value))
  | object members => some members
  | _ => none

def asStr : Value → Option String
  | string text => some text
  | _ => none

/-- `get` of an object. -/
def getMember (members : List (String × Value)) (key : String) : Option Value :=
  Entries.lookup key members

/-- `insert` into an object. -/
def insertMember (members : List (String × Value)) (key : String) (value : Value) :
    List (String × Value) :=
  BTreeMap.insertEntry key value members

/-- `remove` from an object. -/
def removeMember (members : List (String × Value)) (key : String) : List (String × Value) :=
  members.filter fun member ↦ member.1 ≠ key

/-- The text of the `schema` member. -/
def schemaTag (value : Value) : Option String :=
  value.asObject.bind fun members ↦ (getMember members "schema").bind asStr

mutual

def integral : Value → Bool
  | null | bool _ | integer _ | string _ => true
  | float _ => false
  | array items => integralItems items
  | object members => integralMembers members

/-- Whether every number of some values is an integer. -/
def integralItems : List Value → Bool
  | [] => true
  | item :: rest => integral item && integralItems rest

/-- Whether every number of some members is an integer. -/
def integralMembers : List (String × Value) → Bool
  | [] => true
  | (_, item) :: rest => integral item && integralMembers rest

end

def rejectNonIntegers (value : Value) : Except DataError Unit :=
  if value.integral then .ok () else .error (.malformed "non-integer number")

/-! ### Members -/

@[simp]
theorem getMember_insertMember (members : List (String × Value)) (key other : String)
    (value : Value) : getMember (insertMember members key value) other =
      if other = key then some value else getMember members other :=
  BTreeMap.lookup_insertEntry key other value members

@[simp]
theorem getMember_removeMember (members : List (String × Value)) (key other : String) :
    getMember (removeMember members key) other =
      if other = key then none else getMember members other :=
  Entries.lookup_filter members

theorem integralMembers_iff {members : List (String × Value)} :
    integralMembers members = true ↔ ∀ member ∈ members, member.2.integral = true := by
  induction members with
  | nil => simp [integralMembers]
  | cons head rest ih =>
    obtain ⟨key, value⟩ := head
    simp only [integralMembers, Bool.and_eq_true, ih, List.mem_cons, forall_eq_or_imp]

/-- A member of integers keeps an object to integers. -/
theorem integralMembers_insertMember {members : List (String × Value)} {key : String}
    {value : Value} (hmembers : integralMembers members = true) (hvalue : value.integral = true) :
    integralMembers (insertMember members key value) = true := by
  rw [integralMembers_iff] at hmembers ⊢
  intro member hmember
  obtain hnew | hold := BTreeMap.mem_insertEntry hmember
  · rw [hnew]
    exact hvalue
  · exact hmembers member hold

theorem integralMembers_removeMember {members : List (String × Value)} {key : String}
    (hmembers : integralMembers members = true) :
    integralMembers (removeMember members key) = true := by
  rw [integralMembers_iff] at hmembers ⊢
  exact fun member hmember ↦ hmembers member (List.mem_of_mem_filter hmember)

theorem integral_of_getMember {members : List (String × Value)} {key : String} {value : Value}
    (hmembers : integralMembers members = true) (hget : getMember members key = some value) :
    value.integral = true := by
  unfold getMember at hget
  induction members with
  | nil => cases hget
  | cons head rest ih =>
    obtain ⟨found, old⟩ := head
    rw [integralMembers, Bool.and_eq_true] at hmembers
    rw [Entries.lookup] at hget
    split_ifs at hget with hkey
    · cases hget
      exact hmembers.1
    · exact ih hmembers.2 hget

end Value

end Crpg.Data
