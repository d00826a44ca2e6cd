import Crpg.Data.Migration
import Crpg.Edit.Command

/-!
# Pointer edits

`crpg-data/src/pointer_edit.rs`: one edit of a JSON value at a pointer. The pointer is decoded into
its tokens, the parents of the last token are followed one by one, and the edit is made at the last
one. The walk changes the value in place; here it gives the value back with the child it came from
replaced.

`getMember_editValue` is what the editor's protection rests on: an edit of an object leaves every
member but the first token's.
-/

set_option autoImplicit false

namespace Crpg.Edit

open Crpg.Core Crpg.Data Crpg.Lib Crpg.Net

inductive ArrayToken
  | index (value : ℕ)
  | append
  | overflow
deriving DecidableEq

/-- `Op`: an edit with its parsed value. -/
inductive ValueOp
  | set (value : Value)
  | insert (value : Value)
  | remove

/-- `0`, or a digit from one to nine and more digits. -/
def isIndexText : List Char → Bool
  | [] => false
  | ['0'] => true
  | first :: rest => '1' ≤ first && first ≤ '9' && rest.all isDigit

def arrayToken (token : String) : Except PointerEditError ArrayToken :=
  if token = "-" then .ok .append
  else if isIndexText token.toList then
    let value := token.toList.foldl (fun value digit ↦ value * 10 + (digit.toNat - 48)) 0
    .ok (if value ≤ usizeMax then .index value else .overflow)
  else .error .invalidPointer

def existingIndex (token : String) (len : ℕ) : Except PointerEditError ℕ := do
  match ← arrayToken token with
  | .index index => if index < len then .ok index else .error .notFound
  | .append | .overflow => .error .notFound

def insertionIndex (token : String) (len : ℕ) : Except PointerEditError ℕ := do
  match ← arrayToken token with
  | .append => .ok len
  | .index index => if index ≤ len then .ok index else .error .notFound
  | .overflow => .error .notFound

def editLast (last : String) : ValueOp → Value → Except PointerEditError Value
  | .set value, .object members => .ok (.object (Value.insertMember members last value))
  | .set value, .array items => do
    let index ← existingIndex last items.length
    return .array (items.set index value)
  | .insert value, .array items => do
    let index ← insertionIndex last items.length
    return .array (items.insertIdx index value)
  | .remove, .object members =>
    match Value.getMember members last with
    | some _ => .ok (.object (Value.removeMember members last))
    | none => .error .notFound
  | .remove, .array items => do
    let index ← existingIndex last items.length
    return .array (items.eraseIdx index)
  -- an insertion into an object, or an edit under a scalar
  | _, _ => .error .notFound

def editValue (op : ValueOp) (last : String) : List String → Value → Except PointerEditError Value
  | [], value => editLast last op value
  | token :: parents, .object members =>
    match Value.getMember members token with
    | none => .error .notFound
    | some child => do
      let edited ← editValue op last parents child
      return .object (Value.insertMember members token edited)
  | token :: parents, .array items => do
    let index ← existingIndex token items.length
    match items[index]? with
    | none => .error .notFound
    | some child => do
      let edited ← editValue op last parents child
      return .array (items.set index edited)
  | _ :: _, _ => .error .notFound

def PointerEdit.pointer : PointerEdit → String
  | .set pointer _ | .insert pointer _ | .remove pointer => pointer

def editableTokens (pointer : String) : Except PointerEditError (List String × String) := do
  let tokens ← pointerTokens pointer
  match tokens.getLast? with
  | none => .error .rootPointer
  | some last =>
    if tokens.head? = some "schema" then .error .schemaTag else return (tokens.dropLast, last)

/-- The value of an edit, read by the strict parser. -/
def PointerEdit.op (parse : List UInt8 → Except PointerEditError Value) :
    PointerEdit → Except PointerEditError ValueOp
  | .set _ value => (parse value).map ValueOp.set
  | .insert _ value => (parse value).map ValueOp.insert
  | .remove _ => .ok .remove

/-! ### What an edit leaves -/

theorem getMember_editValue {op : ValueOp} {last : String} {parents : List String}
    {members : List (String × Value)} {edited : Value}
    (hedit : editValue op last parents (.object members) = .ok edited) :
    ∃ left, edited = .object left ∧ ∀ key, (parents ++ [last]).head? ≠ some key →
      Value.getMember left key = Value.getMember members key := by
  cases parents with
  | nil =>
    have hkeys : ∀ key, ([] ++ [last]).head? ≠ some key → key ≠ last := by
      intro key hkey heq
      exact hkey (by rw [heq]; rfl)
    cases op with
    | set value =>
      cases hedit
      refine ⟨_, rfl, fun key hkey ↦ ?_⟩
      rw [Value.getMember_insertMember, if_neg (hkeys key hkey)]
    | insert value => cases hedit
    | remove =>
      simp only [editValue, editLast] at hedit
      split at hedit
      · cases hedit
        refine ⟨_, rfl, fun key hkey ↦ ?_⟩
        rw [Value.getMember_removeMember, if_neg (hkeys key hkey)]
      · cases hedit
  | cons token parents =>
    simp only [editValue] at hedit
    split at hedit
    · cases hedit
    · obtain ⟨child, -, hedit⟩ := Result.except_bind_eq_ok hedit
      cases hedit
      refine ⟨_, rfl, fun key hkey ↦ ?_⟩
      have hne : key ≠ token := fun heq ↦ hkey (by rw [heq]; rfl)
      rw [Value.getMember_insertMember, if_neg hne]

theorem editableTokens_eq_ok {pointer last : String} {parents : List String}
    (htokens : editableTokens pointer = .ok (parents, last)) :
    pointerTokens pointer = .ok (parents ++ [last]) ∧
      (parents ++ [last]).head? ≠ some "schema" := by
  obtain ⟨tokens, hpointer, htokens⟩ := Result.except_bind_eq_ok htokens
  split at htokens
  · cases htokens
  · rename_i found hlast
    split_ifs at htokens with hschema
    cases htokens
    have hsplit := List.dropLast_append_getLast? last hlast
    rw [hsplit]
    exact ⟨hpointer, hschema⟩

/-! ### Where an edit lands -/

/-- What a token names under a value: a member, or an element. -/
def locate (token : String) : Value → Option (String ⊕ ℕ)
  | .object _ => some (.inl token)
  | .array items => (existingIndex token items.length).toOption.map .inr
  | _ => none

def child (token : String) (value : Value) : Option Value :=
  match value, locate token value with
  | .object members, some (.inl key) => Value.getMember members key
  | .array items, some (.inr index) => items[index]?
  | _, _ => none

def valueAt (path : List String) (value : Value) : Option Value :=
  path.foldlM (fun value token ↦ child token value) value

structure Puts (token : String) (new value edited : Value) : Prop where
  child : child token edited = some new
  other : ∀ other, locate other value ≠ locate token value →
    Edit.child other edited = Edit.child other value

variable {op : ValueOp} {token last : String} {parents : List String} {new value edited : Value}

theorem puts_member (members : List (String × Value)) :
    Puts token new (.object members) (.object (Value.insertMember members token new)) :=
  ⟨by simp [child, locate], fun other hother ↦ by
    have hne : other ≠ token := fun heq ↦ hother (heq ▸ rfl)
    simp [child, locate, hne]⟩

theorem puts_element {items : List Value} {index : ℕ}
    (hindex : existingIndex token items.length = .ok index) :
    Puts token new (.array items) (.array (items.set index new)) := by
  have hlt : index < items.length := by
    obtain ⟨found, -, hfound⟩ := Result.except_bind_eq_ok hindex
    split at hfound
    · split_ifs at hfound
      cases hfound
      assumption
    all_goals cases hfound
  refine ⟨by simp [child, locate, hindex, Except.toOption, hlt], fun other hother ↦ ?_⟩
  rw [locate, locate, hindex] at hother
  cases hfound : existingIndex other items.length with
  | error error => simp [child, locate, hfound, Except.toOption]
  | ok found =>
    have hne : index ≠ found := fun heq ↦ hother (by rw [hfound, heq])
    simp [child, locate, hfound, Except.toOption, List.getElem?_set_ne hne]

theorem editLast_set (hedit : editLast last (.set new) value = .ok edited) :
    Puts last new value edited := by
  cases value with
  | object members =>
    cases hedit
    exact puts_member members
  | array items =>
    obtain ⟨index, hindex, hedit⟩ := Result.except_bind_eq_ok hedit
    cases hedit
    exact puts_element hindex
  | _ => cases hedit

/-- A step of the walk goes into the child of its token, and puts back what it became. -/
theorem editValue_cons (hedit : editValue op last (token :: parents) value = .ok edited) :
    ∃ below after, child token value = some below ∧ editValue op last parents below = .ok after ∧
      Puts token after value edited := by
  cases value with
  | object members =>
    simp only [editValue] at hedit
    split at hedit
    · cases hedit
    · rename_i below hbelow
      obtain ⟨after, hafter, hedit⟩ := Result.except_bind_eq_ok hedit
      cases hedit
      exact ⟨below, after, hbelow, hafter, puts_member members⟩
  | array items =>
    obtain ⟨index, hindex, hedit⟩ := Result.except_bind_eq_ok hedit
    split at hedit
    · cases hedit
    · rename_i below hbelow
      obtain ⟨after, hafter, hedit⟩ := Result.except_bind_eq_ok hedit
      cases hedit
      exact ⟨below, after, by simp [child, locate, hindex, Except.toOption, hbelow], hafter,
        puts_element hindex⟩
  | _ => cases hedit

/-- Where a pointer edit lands. After an assignment its path holds the new value. A path that leaves
that of the edit at another member or element holds what it held, where the edit is an assignment or
the path leaves before the last token. -/
theorem edit_value_lands (hedit : editValue op last parents value = .ok edited) :
    (∀ new, op = .set new → valueAt (parents ++ [last]) edited = some new) ∧
    ∀ shared token after other rest holder, parents ++ [last] = shared ++ token :: after →
      (after = [] → ∃ new, op = .set new) → valueAt shared value = some holder →
      locate other holder ≠ locate token holder →
      valueAt (shared ++ other :: rest) edited = valueAt (shared ++ other :: rest) value := by
  induction parents generalizing value edited with
  | nil =>
    refine ⟨fun new hop ↦ ?_, fun shared token after other rest holder hpath hop hholder hother ↦ ?_⟩
    · subst hop
      simp [valueAt, (editLast_set hedit).child]
    · cases shared with
      | nil =>
        cases hpath
        obtain ⟨new, rfl⟩ := hop rfl
        cases hholder
        simp [valueAt, (editLast_set hedit).other other hother]
      | cons named shared => simp at hpath
  | cons first parents ih =>
    obtain ⟨below, later, hbelow, hlater, hputs⟩ := editValue_cons hedit
    obtain ⟨hset, hframe⟩ := ih hlater
    refine ⟨fun new hop ↦ ?_, fun shared token after other rest holder hpath hop hholder hother ↦ ?_⟩
    · simpa [valueAt, hputs.child] using hset new hop
    · cases shared with
      | nil =>
        cases hpath
        cases hholder
        simp [valueAt, hputs.other other hother]
      | cons named shared =>
        obtain ⟨rfl, hrest⟩ := List.cons.inj hpath
        simp only [valueAt, List.cons_append, List.foldlM_cons, hbelow, hputs.child] at hholder ⊢
        exact hframe shared token after other rest holder hrest hop hholder hother

/-- The second of two amounts is assigned; the first one and the name stay. -/
theorem edit_value_lands_second :
    let before := Value.object [("damage", .array [.integer 1, .integer 2]), ("name", .string "ram")]
    ∃ after, editValue (.set (.integer 5)) "1" ["damage"] before = .ok after ∧
      valueAt ["damage", "1"] after = some (.integer 5) ∧
      valueAt ["damage", "0"] after = some (.integer 1) ∧
      valueAt ["name"] after = some (.string "ram") := by
  intro before
  have hedit : editValue (.set (.integer 5)) "1" ["damage"] before =
      .ok (.object [("damage", .array [.integer 1, .integer 5]), ("name", .string "ram")]) := rfl
  obtain ⟨hlands, hstays⟩ := edit_value_lands hedit
  refine ⟨_, hedit, hlands _ rfl, ?_, ?_⟩
  · exact hstays ["damage"] "1" [] "0" [] _ rfl (fun _ ↦ ⟨_, rfl⟩) rfl (by decide)
  · exact hstays [] "damage" ["1"] "name" [] _ rfl nofun rfl (by decide)

end Crpg.Edit
