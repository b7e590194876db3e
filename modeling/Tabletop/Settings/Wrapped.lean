import Tabletop.Fields
import Tabletop.Json.Basic

/-!
# Wrapped values

A value of a settings file may be wrapped in a table, together with a mark that says where the value
came from.

* `Json.unwrap?` — a value without its wrapping, and without that of the values inside it.
* `Json.unwrapFields?` — the same for each value of an outermost table, which itself wraps nothing.

Marks are given out by the program alone, so that a file which holds one is refused.
-/

namespace Tabletop.Json

/-- The key of a wrapped value. A table with this key stands for the value; its other keys do not
count. -/
def wrappedKey : String :=
  "___figment_value_value"

/-- The key of the mark of a wrapped value. -/
def markKey : String :=
  "___figment_value_id"

/-- The value that a table stands for, when the values in it wrap nothing any more. -/
def ofTable? (fields : List (String × Json)) : Option Json :=
  match Fields.get? markKey fields with
  | some _ => none
  | none =>
    match Fields.get? wrappedKey fields with
    | some value => some value
    | none => some (.obj fields)

mutual

/-- A value without its wrapping; none when there is a mark in it. -/
def unwrap? : Json → Option Json
  | .arr items => (unwrapItems? items).map .arr
  | .obj fields => (unwrapFields? fields).bind ofTable?
  | value => some value

/-- Items without their wrappings. -/
def unwrapItems? : List Json → Option (List Json)
  | [] => some []
  | item :: rest => do return (← unwrap? item) :: (← unwrapItems? rest)

/-- Fields without the wrappings of their values. -/
def unwrapFields? : List (String × Json) → Option (List (String × Json))
  | [] => some []
  | (name, value) :: rest => do return (name, ← unwrap? value) :: (← unwrapFields? rest)

end

/-- The value of a table that wraps it. -/
theorem ofTable?_of_get? {fields : List (String × Json)} {value : Json}
    (hmark : Fields.get? markKey fields = none)
    (hvalue : Fields.get? wrappedKey fields = some value) : ofTable? fields = some value := by
  simp only [ofTable?, hmark, hvalue]

/-- Taking wrappings off changes no name. -/
theorem map_fst_of_unwrapFields? {fields bare : List (String × Json)}
    (h : unwrapFields? fields = some bare) : bare.map Prod.fst = fields.map Prod.fst := by
  induction fields generalizing bare with
  | nil =>
    rw [unwrapFields?, Option.some.injEq] at h
    rw [← h]
  | cons field rest ih =>
    obtain ⟨name, value⟩ := field
    rw [unwrapFields?] at h
    cases hv : unwrap? value with
    | none => simp [hv] at h
    | some value' =>
      cases hr : unwrapFields? rest with
      | none => simp [hv, hr] at h
      | some rest' =>
        simp only [hv, hr, Option.pure_def, Option.bind_eq_bind, Option.bind_some,
          Option.some.injEq] at h
        rw [← h, List.map_cons, List.map_cons, ih hr]

end Tabletop.Json
