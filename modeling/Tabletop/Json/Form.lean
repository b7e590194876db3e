import Tabletop.Amount
import Tabletop.Json.Basic

/-!
# JSON forms

How the values of a type are written as JSON and read back.

* `JsonForm` — a type with a JSON form; `Json.of` writes and `Json.as?` reads.
* `Json.record?` — the fields of a record. A record is an object, where unknown fields are ignored
  and a known one may stand once; or an array of its fields in order.
* `Json.variant?` — a choice. A choice is the name of an alternative, or an object whose only field
  has that name and holds what the alternative carries.
-/

namespace Tabletop

/-- A type whose values have a JSON form. -/
class JsonForm (α : Type) where
  /-- writes a value -/
  write : α → Json
  /-- reads a value; none when the JSON value is not of the type's form -/
  read? : Json → Option α

namespace Json

/-- The JSON form of a value. -/
def of {α : Type} [JsonForm α] (a : α) : Json :=
  JsonForm.write a

/-- Reads a value of a type. -/
def as? (α : Type) [JsonForm α] (j : Json) : Option α :=
  JsonForm.read? j

/-! ## Values without parts -/

/-- The whole number of a value. -/
def int? : Json → Option Int
  | .int n => some n
  | _ => none

/-- The natural number below `bound` of a value. -/
def below? (bound : Nat) (j : Json) : Option Nat :=
  match j with
  | .int (.ofNat n) => if n < bound then some n else none
  | _ => none

instance : JsonForm Bool where
  write := .bool
  read?
    | .bool b => some b
    | _ => none

/-- A single character counts as a string. -/
instance : JsonForm String where
  write := .str
  read?
    | .str s => some s
    | .letter c => some (String.ofList [c])
    | _ => none

instance : JsonForm Amount where
  write a := .int a.toInt
  read? j := j.int?.bind Amount.ofInt?

instance : JsonForm UInt32 where
  write n := .int n.toNat
  read? j := (j.below? UInt32.size).map UInt32.ofNat

instance : JsonForm UInt64 where
  write n := .int n.toNat
  read? j := (j.below? UInt64.size).map UInt64.ofNat

/-- A natural number of any size, such as a place in a list. -/
instance : JsonForm Nat where
  write n := .int n
  read?
    | .int (.ofNat n) => some n
    | _ => none

/-- A value that may be missing is written as `null`. -/
instance {α : Type} [JsonForm α] : JsonForm (Option α) where
  write
    | some a => of a
    | none => .null
  read?
    | .null => some none
    | j => (j.as? α).map some

instance {α : Type} [JsonForm α] : JsonForm (List α) where
  write items := .arr (items.map of)
  read?
    | .arr items => items.mapM fun item => item.as? α
    | _ => none

/-! ## Records -/

/-- The values of the fields with a name. -/
def named (name : String) (fields : List (String × Json)) : List Json :=
  fields.filterMap fun (n, value) => if n = name then some value else none

/-- The value of a field that may be absent; none when the field stands more than once. -/
def field? (fields : List (String × Json)) (name : String) : Option (Option Json) :=
  match named name fields with
  | [] => some none
  | [value] => some (some value)
  | _ => none

/-- The fields of a record in the order of their names, each absent or given. As an array, a record
may stop early only when `optional` says that all its fields may be absent. -/
def record? (names : List String) (optional : Bool) : Json → Option (List (Option Json))
  | .obj fields => names.mapM (field? fields)
  | .arr items =>
    if items.length = names.length ∨ (optional ∧ items.length < names.length) then
      some (items.map some ++ List.replicate (names.length - items.length) none)
    else none
  | _ => none

/-- Reads a field that has to be given. -/
def required {α : Type} [JsonForm α] (field : Option Json) : Option α :=
  field.bind (as? α)

/-- Reads a field that stands for `value` when it is absent. -/
def defaulting {α : Type} [JsonForm α] (value : α) (field : Option Json) : Option α :=
  match field with
  | some j => j.as? α
  | none => some value

/-! ## Choices -/

/-- The alternative named by a value, with what it carries. -/
def variant? : Json → Option (String × Option Json)
  | .str name => some (name, none)
  | .obj [(name, value)] => some (name, some value)
  | _ => none

/-- An alternative that carries nothing: its name alone, or with `null`. -/
def bare {α : Type} (a : α) : Option Json → Option α
  | none => some a
  | some .null => some a
  | some _ => none

/-- An alternative that carries a value. -/
def carrying {α β : Type} [JsonForm α] (f : α → β) (payload : Option Json) : Option β :=
  (payload.bind (as? α)).map f

end Json

end Tabletop
