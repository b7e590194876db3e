import Tabletop.Proofs.Settings.Distinct
import Tabletop.Proofs.Toml.Distinct
import Tabletop.Settings.Load

/-!
# Wrapped and marked values of a file

A table below the outermost may wrap a value or hold a mark. What wraps a value stands for it; a
mark cannot be read, wherever it is.

* `Json.Marked` — a table inside a value holds a mark: these are the values that cannot be unwrapped
  (`Json.unwrap?_eq_none_iff`).
* `Json.unwrap?_of_wrapped`, `Json.unwrap?_of_not_wrapped` — a table that wraps a value stands for
  it, and any other one is left a table.
* `Json.Bare` — no table inside a value wraps another or holds a mark: such a value is left as it
  is.
* `Settings.fileLayer_eq_error_iff` — the files that are refused; `Settings.exists_fields_of_read`
  says what the others set.
-/

namespace Tabletop

namespace Json

/-! ## Marks -/

mutual

/-- Some table inside a value holds a mark. -/
def Marked : Json → Prop
  | .arr items => MarkedItems items
  | .obj fields => markKey ∈ fields.map Prod.fst ∨ MarkedFields fields
  | _ => False

/-- The same for some item. -/
def MarkedItems : List Json → Prop
  | [] => False
  | item :: rest => item.Marked ∨ MarkedItems rest

/-- The same for the value of some field. -/
def MarkedFields : List (String × Json) → Prop
  | [] => False
  | (_, value) :: rest => value.Marked ∨ MarkedFields rest

end

theorem ofTable?_eq_none_iff {fields : List (String × Json)} :
    ofTable? fields = none ↔ markKey ∈ fields.map Prod.fst := by
  rw [← not_iff_not, ← Fields.get?_eq_none_iff, ofTable?]
  cases Fields.get? markKey fields with
  | some _ => simp
  | none => cases Fields.get? wrappedKey fields <;> simp

mutual

/-- **The values with a mark are those that cannot be unwrapped.** -/
theorem unwrap?_eq_none_iff : {j : Json} → (j.unwrap? = none ↔ j.Marked)
  | .arr items => by
    rw [unwrap?, Option.map_eq_none_iff, unwrapItems?_eq_none_iff, Marked]
  | .obj fields => by
    rw [unwrap?, Marked, ← unwrapFields?_eq_none_iff]
    cases hbare : unwrapFields? fields with
    | none => simp
    | some bare =>
      rw [Option.bind_some, ofTable?_eq_none_iff, map_fst_of_unwrapFields? hbare]
      simp
  | .null => iff_of_false nofun id
  | .bool _ => iff_of_false nofun id
  | .int _ => iff_of_false nofun id
  | .float _ => iff_of_false nofun id
  | .str _ => iff_of_false nofun id
  | .letter _ => iff_of_false nofun id
  | .unpaired => iff_of_false nofun id

theorem unwrapItems?_eq_none_iff : {items : List Json} →
    (unwrapItems? items = none ↔ MarkedItems items)
  | [] => iff_of_false nofun id
  | item :: rest => by
    rw [unwrapItems?, MarkedItems, ← unwrap?_eq_none_iff, ← unwrapItems?_eq_none_iff]
    cases item.unwrap? <;> cases unwrapItems? rest <;> simp

theorem unwrapFields?_eq_none_iff : {fields : List (String × Json)} →
    (unwrapFields? fields = none ↔ MarkedFields fields)
  | [] => iff_of_false nofun id
  | (name, value) :: rest => by
    rw [unwrapFields?, MarkedFields, ← unwrap?_eq_none_iff, ← unwrapFields?_eq_none_iff]
    cases value.unwrap? <;> cases unwrapFields? rest <;> simp

end

/-! ## Wrapped values -/

/-- Under a name stands what stood there, unwrapped. -/
theorem get?_of_unwrapFields? {fields bare : List (String × Json)}
    (h : unwrapFields? fields = some bare) (name : String) :
    Fields.get? name bare = (Fields.get? name fields).bind unwrap? := by
  induction fields generalizing bare with
  | nil =>
    cases h
    rfl
  | cons field rest ih =>
    obtain ⟨n, value⟩ := field
    obtain ⟨value', hvalue, h⟩ := Option.bind_eq_some_iff.mp h
    obtain ⟨rest', hrest, h⟩ := Option.bind_eq_some_iff.mp h
    cases h
    rw [Fields.get?, Fields.get?, ih hrest]
    split
    · exact hvalue.symm
    · rfl

section Table

variable {fields : List (String × Json)} (hmarked : ¬ (obj fields).Marked)

include hmarked

/-- The fields of a table without a mark can be unwrapped, and none is a mark. -/
theorem exists_unwrapFields?_of_not_marked : ∃ bare, unwrapFields? fields = some bare ∧
    Fields.get? markKey bare = none := by
  obtain ⟨hmark, hfields⟩ := not_or.mp hmarked
  obtain ⟨bare, hbare⟩ := Option.ne_none_iff_exists'.mp
    fun hnone => hfields (unwrapFields?_eq_none_iff.mp hnone)
  refine ⟨bare, hbare, ?_⟩
  rwa [Fields.get?_eq_none_iff, map_fst_of_unwrapFields? hbare]

/-- **A table that wraps a value stands for it**, whatever else the table holds. -/
theorem unwrap?_of_wrapped {value : Json} (hvalue : Fields.get? wrappedKey fields = some value) :
    (obj fields).unwrap? = value.unwrap? := by
  obtain ⟨bare, hbare, hmark⟩ := exists_unwrapFields?_of_not_marked hmarked
  have hwrapped := get?_of_unwrapFields? hbare wrappedKey
  rw [hvalue, Option.bind_some] at hwrapped
  rw [unwrap?, hbare, Option.bind_some, ← hwrapped]
  cases hget : Fields.get? wrappedKey bare with
  | none =>
    rw [Fields.get?_eq_none_iff, map_fst_of_unwrapFields? hbare, ← Fields.get?_eq_none_iff,
      hvalue] at hget
    cases hget
  | some value' => exact ofTable?_of_get? hmark hget

/-- Any other table is left a table, with its values unwrapped. -/
theorem unwrap?_of_not_wrapped (hwrapped : Fields.get? wrappedKey fields = none) :
    ∃ bare, (obj fields).unwrap? = some (.obj bare) ∧
      ∀ name, Fields.get? name bare = (Fields.get? name fields).bind unwrap? := by
  obtain ⟨bare, hbare, hmark⟩ := exists_unwrapFields?_of_not_marked hmarked
  have hnone : Fields.get? wrappedKey bare = none := by
    rw [get?_of_unwrapFields? hbare, hwrapped, Option.bind_none]
  refine ⟨bare, ?_, get?_of_unwrapFields? hbare⟩
  rw [unwrap?, hbare, Option.bind_some]
  simp only [ofTable?, hmark, hnone]

end Table

/-! ## Values that wrap nothing -/

mutual

/-- No table inside a value wraps another value or marks one. -/
def Bare : Json → Prop
  | .arr items => BareItems items
  | .obj fields => Fields.get? markKey fields = none ∧ Fields.get? wrappedKey fields = none ∧
      BareFields fields
  | _ => True

/-- The same for each item. -/
def BareItems : List Json → Prop
  | [] => True
  | item :: rest => item.Bare ∧ BareItems rest

/-- The same for the value of each field. -/
def BareFields : List (String × Json) → Prop
  | [] => True
  | (_, value) :: rest => value.Bare ∧ BareFields rest

end

mutual

/-- A value that wraps nothing is left as it is. -/
theorem Bare.unwrap? : {j : Json} → j.Bare → j.unwrap? = some j
  | .arr items, h => by rw [Json.unwrap?, BareItems.unwrapItems? h, Option.map_some]
  | .obj fields, h => by
    obtain ⟨hmark, hwrapped, hfields⟩ := h
    rw [Json.unwrap?, hfields.unwrapFields?, Option.bind_some]
    simp only [ofTable?, hmark, hwrapped]
  | .null, _ => rfl
  | .bool _, _ => rfl
  | .int _, _ => rfl
  | .float _, _ => rfl
  | .str _, _ => rfl
  | .letter _, _ => rfl
  | .unpaired, _ => rfl

theorem BareItems.unwrapItems? : {items : List Json} → BareItems items →
    Json.unwrapItems? items = some items
  | [], _ => rfl
  | item :: rest, h => by
    rw [Json.unwrapItems?, h.1.unwrap?, h.2.unwrapItems?]
    rfl

theorem BareFields.unwrapFields? : {fields : List (String × Json)} → BareFields fields →
    Json.unwrapFields? fields = some fields
  | [], _ => rfl
  | (name, value) :: rest, h => by
    rw [Json.unwrapFields?, h.1.unwrap?, h.2.unwrapFields?]
    rfl

end

end Json

/-! ## Files -/

namespace Settings

/-- The layer of a file is its table, unwrapped. -/
theorem fileLayer_of_read {contents : String} {fields : List (String × Json)}
    (h : Toml.read? contents = some (.obj fields)) :
    fileLayer (.text contents) =
      (Json.unwrapFields? fields).elim (.error .shape) fun bare => .ok (.obj bare) := by
  rw [fileLayer, h, Option.bind_some, fileLayer.unwrapped?]
  cases Json.unwrapFields? fields <;> rfl

/-- **A file is refused** when it is no TOML, or when it holds a mark below its outermost table. -/
theorem fileLayer_eq_error_iff {contents : String} : fileLayer (.text contents) = .error .shape ↔
    ∀ fields, Toml.read? contents = some (.obj fields) → Json.MarkedFields fields := by
  cases hread : Toml.read? contents with
  | none =>
    rw [fileLayer, hread]
    exact iff_of_true rfl nofun
  | some table =>
    obtain ⟨fields, rfl⟩ := Toml.exists_fields_of_read? hread
    rw [fileLayer_of_read hread]
    simp only [Option.some.injEq, Json.obj.injEq, forall_eq', ← Json.unwrapFields?_eq_none_iff]
    cases Json.unwrapFields? fields <;> simp

/-- Under a name of a file that is not refused stands what the file sets there, unwrapped. -/
theorem exists_fields_of_read {contents : String} {fields : List (String × Json)} {layer : Json}
    (hread : Toml.read? contents = some (.obj fields))
    (h : fileLayer (.text contents) = .ok layer) :
    ∃ bare, layer = .obj bare ∧
      ∀ name, Fields.get? name bare = (Fields.get? name fields).bind Json.unwrap? := by
  rw [fileLayer_of_read hread] at h
  cases hbare : Json.unwrapFields? fields with
  | none =>
    rw [hbare] at h
    cases h
  | some bare =>
    rw [hbare] at h
    cases h
    exact ⟨bare, rfl, Json.get?_of_unwrapFields? hbare⟩

/-- The layer of a TOML text without wrapped values is its table. -/
theorem fileLayer_text {contents : String} {table : Json} (hread : Toml.read? contents = some table)
    (hbare : table.Bare) : fileLayer (.text contents) = .ok table := by
  obtain ⟨fields, rfl⟩ := Toml.exists_fields_of_read? hread
  rw [fileLayer_of_read hread, hbare.2.2.unwrapFields?]
  rfl

end Settings

end Tabletop
