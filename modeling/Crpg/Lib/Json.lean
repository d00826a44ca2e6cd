import Mathlib.Data.List.Basic

/-!
# JSON values

The values a compact JSON writer writes: null, booleans, natural numbers, texts, lists and maps
whose fields keep their order. `render` is the compact text. `visitFields` is the loop of a map
visitor that rejects an unknown and a repeated key and decodes each value as it meets it; a map
written with distinct known keys whose values decode is read back field by field
(`visitFields_eq_ok`).
-/

set_option autoImplicit false

namespace Crpg.Lib

inductive Json
  | null
  | bool (value : Bool)
  | number (value : ℕ)
  | text (value : String)
  | list (items : List Json)
  | map (fields : List (String × Json))

namespace Json

/-! ### Text -/

def hexDigit (value : ℕ) : Char := "0123456789abcdef".toList.getD value '0'

/-- One character inside a JSON text. -/
def escapeChar (char : Char) : String :=
  if char = '"' then "\\\""
  else if char = '\\' then "\\\\"
  else if char.toNat = 8 then "\\b"
  else if char.toNat = 9 then "\\t"
  else if char.toNat = 10 then "\\n"
  else if char.toNat = 12 then "\\f"
  else if char.toNat = 13 then "\\r"
  else if char.toNat < 32 then
    "\\u00" ++ String.ofList [hexDigit (char.toNat / 16), hexDigit (char.toNat % 16)]
  else String.ofList [char]

def quote (text : String) : String :=
  "\"" ++ String.join (text.toList.map escapeChar) ++ "\""

mutual

def render : Json → String
  | null => "null"
  | bool value => if value then "true" else "false"
  | number value => toString value
  | text value => quote value
  | list items => "[" ++ renderItems items ++ "]"
  | map fields => "\x7b" ++ renderFields fields ++ "\x7d"

def renderItems : List Json → String
  | [] => ""
  | [item] => render item
  | item :: rest => render item ++ "," ++ renderItems rest

/-- The fields of a map, separated by commas. -/
def renderFields : List (String × Json) → String
  | [] => ""
  | [(key, value)] => quote key ++ ":" ++ render value
  | (key, value) :: rest => quote key ++ ":" ++ render value ++ "," ++ renderFields rest

end

/-- The number of bytes of the compact text. -/
def size (value : Json) : ℕ := value.render.utf8ByteSize

/-! ### Reading -/

def asNumber : Json → Except String ℕ
  | number value => .ok value
  | _ => .error "invalid type: expected a number"

def asText : Json → Except String String
  | text value => .ok value
  | _ => .error "invalid type: expected a string"

def asList : Json → Except String (List Json)
  | list items => .ok items
  | _ => .error "invalid type: expected a sequence"

def asMap : Json → Except String (List (String × Json))
  | map fields => .ok fields
  | _ => .error "invalid type: expected a map"

end Json

/-! ### Map visitors -/

/-- The loop of a map visitor over the fields read so far. Assumes of `decoder`: it knows the keys
of the map and decodes their values. -/
def visitFields {V : Type*} (decoder : String → Option (Json → Except String V))
    (duplicate : String → String) (unknown : String) :
    List (String × Json) → List (String × V) → Except String (List (String × V))
  | [], seen => .ok seen
  | (key, value) :: rest, seen =>
    match decoder key with
    | none => .error unknown
    | some decode =>
      if seen.any fun field ↦ field.1 = key then .error (duplicate key)
      else match decode value with
        | .error error => .error error
        | .ok field => visitFields decoder duplicate unknown rest (seen ++ [(key, field)])

/-- The value of a field that was read. -/
def fieldOf {V : Type*} (seen : List (String × V)) (key : String) : Option V :=
  (seen.find? fun field ↦ field.1 = key).map Prod.snd

theorem visitFields_eq_ok {V : Type*} {decoder : String → Option (Json → Except String V)}
    {duplicate : String → String} {unknown : String} {fields : List (String × Json)}
    {values seen : List (String × V)}
    (hdecoded : List.Forall₂ (fun field value ↦ field.1 = value.1 ∧
      ∃ decode, decoder field.1 = some decode ∧ decode field.2 = .ok value.2) fields values)
    (hdistinct : ((seen ++ values).map Prod.fst).Nodup) :
    visitFields decoder duplicate unknown fields seen = .ok (seen ++ values) := by
  induction hdecoded generalizing seen with
  | nil => rw [List.append_nil]; rfl
  | @cons field value fields values hfield _ ih =>
    obtain ⟨key, json⟩ := field
    obtain ⟨also, decoded⟩ := value
    obtain ⟨rfl, decode, hdecoder, hvalue⟩ := hfield
    have hfresh : (seen.any fun field ↦ field.1 = key) = false := by
      rw [List.map_append, List.nodup_append] at hdistinct
      rw [List.any_eq_false]
      intro other hother heq
      refine hdistinct.2.2 other.1 (List.mem_map_of_mem hother) key ?_ (by simpa using heq)
      exact List.mem_map_of_mem (List.mem_cons_self ..)
    have hrest := @ih (seen ++ [(key, decoded)]) (by simpa using hdistinct)
    simp only [visitFields, hdecoder, hfresh, hvalue, hrest]
    simp

end Crpg.Lib
