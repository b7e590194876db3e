import Tabletop.Json.Token

/-!
# Reading a JSON text

* `Json.read?` — the value of a text; none for a text that is not JSON, or that goes on after its
  value.

The reader runs over tokens. Each of its calls is given how many more it may nest, and twice the
number of tokens is always enough.
-/

namespace Tabletop.Json

/-- The name of a field, given the string it is written as; the inner option is empty for a string
that names no text. -/
def fieldName? : Json → Option (Option String)
  | .str name => some (some name)
  | .unpaired => some none
  | _ => none

/-- The object of some fields; one with a field that has no name cannot be read as anything. -/
def ofFields (fields : List (Option String × Json)) : Json :=
  match fields.mapM fun (name, value) => name.map fun n => (n, value) with
  | some named => .obj named
  | none => .unpaired

mutual

/-- Reads one value from the front of the tokens. -/
def readValue : Nat → List Token → Option (Json × List Token)
  | 0, _ => none
  | depth + 1, tokens =>
    match tokens with
    | .leaf value :: rest => some (value, rest)
    | .openArray :: .closeArray :: rest => some (.arr [], rest)
    | .openArray :: rest => (readItems depth rest).map fun (items, rest) => (.arr items, rest)
    | .openObject :: .closeObject :: rest => some (.obj [], rest)
    | .openObject :: rest =>
      (readFields depth rest).map fun (fields, rest) => (ofFields fields, rest)
    | _ => none

/-- Reads the items of an array and its closing bracket. -/
def readItems : Nat → List Token → Option (List Json × List Token)
  | 0, _ => none
  | depth + 1, tokens =>
    match readValue depth tokens with
    | some (item, .closeArray :: rest) => some ([item], rest)
    | some (item, .comma :: rest) =>
      (readItems depth rest).map fun (items, rest) => (item :: items, rest)
    | _ => none

/-- Reads the fields of an object and its closing brace. -/
def readFields : Nat → List Token → Option (List (Option String × Json) × List Token)
  | 0, _ => none
  | depth + 1, tokens =>
    match tokens with
    | .leaf key :: .colon :: rest =>
      match fieldName? key, readValue depth rest with
      | some name, some (value, .closeObject :: rest) => some ([(name, value)], rest)
      | some name, some (value, .comma :: rest) =>
        (readFields depth rest).map fun (fields, rest) => ((name, value) :: fields, rest)
      | _, _ => none
    | _ => none

end

/-- Fields that all have names are the fields of the object. -/
theorem ofFields_map (fields : List (String × Json)) :
    ofFields (fields.map fun field => (some field.1, field.2)) = .obj fields := by
  unfold ofFields
  have h : (fields.map fun field => (some field.1, field.2)).mapM
      (fun ((name, value) : Option String × Json) => name.map fun n => (n, value)) =
        some fields := by
    induction fields with
    | nil => rfl
    | cons field rest ih => simp [ih]
  rw [h]

/-- Reads a JSON text. -/
def read? (text : String) : Option Json :=
  match Token.ofText? text.toList with
  | none => none
  | some tokens =>
    match readValue (2 * tokens.length + 2) tokens with
    | some (value, []) => some value
    | _ => none

end Tabletop.Json
