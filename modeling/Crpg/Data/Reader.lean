import Crpg.Core.Fixed
import Crpg.Core.Ulid
import Crpg.Data.Value

/-!
# Readers of JSON values

The derived `serde` readers over `serde_json` values: machine integers within their range, texts,
identities, sequences, pairs, and the members of a structure that denies unknown fields. `Reads`
says what a reader makes of what its writer wrote: the value it was given, when the value fits.
-/

set_option autoImplicit false

namespace Crpg.Data

open Crpg.Core Crpg.Lib

variable {α β : Type*}

def readNat (bound : ℕ) : Value → Option ℕ
  | .integer value => if 0 ≤ value ∧ value ≤ bound then some value.toNat else none
  | _ => none

/-- An `i32`. -/
def readI32 : Value → Option ℤ
  | .integer value => if InI32 value then some value else none
  | _ => none

def readUlid (value : Value) : Option Ulid :=
  value.asStr.bind fun text ↦ (parseUlid text).toOption

/-- A sequence. -/
def readItems (read : Value → Option α) : Value → Option (List α)
  | .array items => items.mapM read
  | _ => none

/-- A pair: a sequence of two. -/
def readPair (first : Value → Option α) (second : Value → Option β) : Value → Option (α × β)
  | .array [left, right] =>
    (first left).bind fun head ↦ (second right).bind fun tail ↦ some (head, tail)
  | _ => none

/-- The members of a structure of known fields: of an object that names no other field and none
twice, or of a sequence in the order of the fields. -/
def readMembers (known : List String) : Value → Option (List (String × Value))
  | .object members =>
    if (∀ member ∈ members, member.1 ∈ known) ∧ (members.map Prod.fst).Nodup then some members
    else none
  | .array items => if items.length ≤ known.length then some (known.zip items) else none
  | _ => none

/-- A field that has to be there. -/
def required (members : List (String × Value)) (key : String) (read : Value → Option α) :
    Option α :=
  (Value.getMember members key).bind read

/-- A field that defaults to the empty sequence. -/
def itemsOrEmpty (members : List (String × Value)) (key : String) (read : Value → Option α) :
    Option (List α) :=
  match Value.getMember members key with
  | none => some []
  | some value => readItems read value

/-- The member of a sequence that is left out when empty. -/
def memberUnlessEmpty (key : String) (write : α → Value) (items : List α) : List (String × Value) :=
  if items = [] then [] else [(key, .array (items.map write))]

/-! ### Reading what was written -/

/-- A reader gives back what its writer was given when that fits, and nothing otherwise. -/
def Reads (read : Value → Option α) (write : α → Value) (fits : α → Prop) : Prop :=
  ∀ value found, read (write value) = some found ↔ fits value ∧ found = value

theorem reads_nat (bound : ℕ) :
    Reads (readNat bound) (fun value : ℕ ↦ .integer value) (· ≤ bound) := by
  intro value found
  show (if 0 ≤ (value : ℤ) ∧ (value : ℤ) ≤ bound then some (value : ℤ).toNat else none) =
    some found ↔ _
  by_cases hfits : value ≤ bound
  · rw [if_pos ⟨Int.natCast_nonneg _, Int.ofNat_le.mpr hfits⟩, Option.some.injEq, Int.toNat_natCast]
    exact ⟨fun heq ↦ ⟨hfits, heq.symm⟩, fun heq ↦ heq.2.symm⟩
  · rw [if_neg fun hbound ↦ hfits (Int.ofNat_le.mp hbound.2)]
    constructor
    · intro heq
      exact nomatch heq
    · intro heq
      exact absurd heq.1 hfits

theorem reads_i32 : Reads readI32 .integer InI32 := by
  intro value found
  show (if InI32 value then some value else none) = some found ↔ _
  by_cases hfits : InI32 value
  · rw [if_pos hfits, Option.some.injEq]
    exact ⟨fun heq ↦ ⟨hfits, heq.symm⟩, fun heq ↦ heq.2.symm⟩
  · rw [if_neg hfits]
    constructor
    · intro heq
      exact nomatch heq
    · intro heq
      exact absurd heq.1 hfits

theorem reads_text : Reads Value.asStr .string fun _ ↦ True := by
  intro value found
  show some value = some found ↔ _
  rw [Option.some.injEq]
  exact ⟨fun heq ↦ ⟨trivial, heq.symm⟩, fun heq ↦ heq.2.symm⟩

theorem reads_ulid : Reads readUlid (fun id ↦ .string (ulidText id)) fun _ ↦ True := by
  intro value found
  show (some (ulidText value)).bind (fun text ↦ (parseUlid text).toOption) = some found ↔ _
  rw [Option.bind_some, parse_ulidText]
  show some value = some found ↔ _
  rw [Option.some.injEq]
  exact ⟨fun heq ↦ ⟨trivial, heq.symm⟩, fun heq ↦ heq.2.symm⟩

theorem Reads.items {read : Value → Option α} {write : α → Value} {fits : α → Prop}
    (hreads : Reads read write fits) : Reads (readItems read) (fun items ↦ .array (items.map write))
      fun items ↦ ∀ item ∈ items, fits item := by
  intro items found
  show (items.map write).mapM read = some found ↔ _
  induction items generalizing found with
  | nil =>
    show some [] = some found ↔ _
    rw [Option.some.injEq]
    exact ⟨fun heq ↦ ⟨fun _ hmem ↦ absurd hmem List.not_mem_nil, heq.symm⟩, fun heq ↦ heq.2.symm⟩
  | cons item rest ih =>
    rw [List.map_cons, List.mapM_cons]
    show (read (write item)).bind (fun head ↦ ((rest.map write).mapM read).bind fun tail ↦
      some (head :: tail)) = some found ↔ (∀ other ∈ item :: rest, fits other) ∧ _
    rw [Option.bind_eq_some_iff, List.forall_mem_cons]
    constructor
    · rintro ⟨head, hhead, hlater⟩
      obtain ⟨tail, htail, hfound⟩ := Option.bind_eq_some_iff.mp hlater
      obtain ⟨hfits, rfl⟩ := (hreads item head).mp hhead
      obtain ⟨hrest, rfl⟩ := (ih tail).mp htail
      exact ⟨⟨hfits, hrest⟩, (Option.some.inj hfound).symm⟩
    · rintro ⟨⟨hfits, hrest⟩, rfl⟩
      refine ⟨item, (hreads item item).mpr ⟨hfits, rfl⟩, ?_⟩
      rw [(ih rest).mpr ⟨hrest, rfl⟩, Option.bind_some]

theorem Reads.pair {first : Value → Option α} {second : Value → Option β} {left : α → Value}
    {right : β → Value} {fitsLeft : α → Prop} {fitsRight : β → Prop}
    (hfirst : Reads first left fitsLeft) (hsecond : Reads second right fitsRight) :
    Reads (readPair first second) (fun pair ↦ .array [left pair.1, right pair.2])
      fun pair ↦ fitsLeft pair.1 ∧ fitsRight pair.2 := by
  intro pair found
  show (first (left pair.1)).bind (fun head ↦ (second (right pair.2)).bind fun tail ↦
    some (head, tail)) = some found ↔ _
  rw [Option.bind_eq_some_iff]
  constructor
  · rintro ⟨head, hhead, hrest⟩
    obtain ⟨tail, htail, hfound⟩ := Option.bind_eq_some_iff.mp hrest
    obtain ⟨hleft, rfl⟩ := (hfirst _ _).mp hhead
    obtain ⟨hright, rfl⟩ := (hsecond _ _).mp htail
    exact ⟨⟨hleft, hright⟩, (Option.some.inj hfound).symm⟩
  · rintro ⟨⟨hleft, hright⟩, rfl⟩
    refine ⟨found.1, (hfirst _ _).mpr ⟨hleft, rfl⟩, ?_⟩
    rw [(hsecond _ _).mpr ⟨hright, rfl⟩, Option.bind_some]

/-- A field that was written reads back. -/
theorem Reads.required {read : Value → Option α} {write : α → Value} {fits : α → Prop}
    (hreads : Reads read write fits) {members : List (String × Value)} {key : String} {value : α}
    (hmember : Value.getMember members key = some (write value)) (found : α) :
    Data.required members key read = some found ↔ fits value ∧ found = value := by
  rw [Data.required, hmember, Option.bind_some]
  exact hreads value found

/-- A sequence that was written, or left out when empty, reads back. -/
theorem Reads.itemsOrEmpty {read : Value → Option α} {write : α → Value} {fits : α → Prop}
    (hreads : Reads read write fits) {members : List (String × Value)} {key : String}
    {items : List α} (hmember : Value.getMember members key =
      if items = [] then none else some (.array (items.map write))) (found : List α) :
    Data.itemsOrEmpty members key read = some found ↔
      (∀ item ∈ items, fits item) ∧ found = items := by
  rw [Data.itemsOrEmpty, hmember]
  by_cases hempty : items = []
  · rw [if_pos hempty, hempty, Option.some.injEq]
    exact ⟨fun heq ↦ ⟨fun _ hmem ↦ absurd hmem List.not_mem_nil, heq.symm⟩, fun heq ↦ heq.2.symm⟩
  · rw [if_neg hempty]
    exact hreads.items items found

/-! ### Members -/

theorem readMembers_object {known : List String} {members : List (String × Value)}
    (hknown : known.Nodup) (hsublist : (members.map Prod.fst).Sublist known) :
    readMembers known (.object members) = some members :=
  if_pos ⟨fun _ hmember ↦ hsublist.subset (List.mem_map_of_mem hmember), hknown.sublist hsublist⟩

theorem keys_memberUnlessEmpty (key : String) (write : α → Value) (items : List α) :
    ((memberUnlessEmpty key write items).map Prod.fst).Sublist [key] := by
  unfold memberUnlessEmpty
  split_ifs
  · exact List.nil_sublist _
  · exact List.Sublist.refl _

theorem getMember_cons (key found : String) (value : Value) (rest : List (String × Value)) :
    Value.getMember ((found, value) :: rest) key =
      if key = found then some value else Value.getMember rest key := rfl

theorem getMember_append (first second : List (String × Value)) (key : String) :
    Value.getMember (first ++ second) key =
      (Value.getMember first key).or (Value.getMember second key) := by
  induction first with
  | nil => rfl
  | cons head rest ih =>
    obtain ⟨found, value⟩ := head
    rw [List.cons_append, getMember_cons, getMember_cons, ih]
    split_ifs <;> rfl

theorem getMember_memberUnlessEmpty (key other : String) (write : α → Value) (items : List α) :
    Value.getMember (memberUnlessEmpty key write items) other =
      if other = key then if items = [] then none else some (.array (items.map write))
      else none := by
  unfold memberUnlessEmpty
  by_cases hempty : items = []
  · rw [if_pos hempty, if_pos hempty, ite_self]
    rfl
  · rw [if_neg hempty, if_neg hempty]
    rfl

end Crpg.Data
