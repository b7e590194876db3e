import Mathlib.Data.List.Nodup
import Tabletop.Settings.Variables
import Tabletop.Settings.Wrapped

/-!
# Keys stand once

No table of a layer holds a key twice: neither a table that a file or a variable is read as, nor one
that layers are merged to. What stands under a key does not depend on where one looks for it then.

* `Json.Distinct` — no object inside a value has two fields of the same name.
* `Json.Distinct.overlay` — layers keep this when they are laid over each other.
* `Json.DistinctFields.unwrap?` — values keep it when their wrapping is taken off.
* `Environment.distinct_layer` — it holds for the layer of the variables.
-/

namespace Tabletop

/-! ## Names of fields -/

namespace Fields

variable {α : Type} {name : String} {value : α} {fields : List (String × α)}

theorem mem_of_get? (h : get? name fields = some value) : (name, value) ∈ fields := by
  induction fields with
  | nil => cases h
  | cons field rest ih =>
    obtain ⟨n, old⟩ := field
    rw [get?] at h
    split at h
    · next hn =>
      cases h
      exact hn ▸ List.mem_cons_self
    · exact List.mem_cons_of_mem _ (ih h)

theorem get?_eq_none_iff : get? name fields = none ↔ name ∉ fields.map Prod.fst := by
  induction fields with
  | nil => exact iff_of_true rfl List.not_mem_nil
  | cons field rest ih =>
    obtain ⟨n, old⟩ := field
    rw [get?, List.map_cons, List.mem_cons, not_or]
    split
    · next hn => exact iff_of_false (Option.some_ne_none old) fun h => h.1 hn.symm
    · next hn => exact ih.trans (and_iff_right fun h => hn h.symm).symm

/-- Setting a field that stands keeps all names, and another one puts its name behind them. -/
theorem map_fst_set (name : String) (value : α) (fields : List (String × α)) :
    (set name value fields).map Prod.fst =
      if name ∈ fields.map Prod.fst then fields.map Prod.fst
      else fields.map Prod.fst ++ [name] := by
  induction fields with
  | nil => rfl
  | cons field rest ih =>
    obtain ⟨n, old⟩ := field
    rw [set]
    by_cases hn : n = name
    · simp [hn]
    · rw [if_neg hn, List.map_cons, ih]
      by_cases hrest : name ∈ rest.map Prod.fst
      · simp [hrest]
      · simp [hrest, Ne.symm hn]

theorem nodup_set (name : String) (value : α) (h : (fields.map Prod.fst).Nodup) :
    ((set name value fields).map Prod.fst).Nodup := by
  rw [map_fst_set]
  split
  · exact h
  · next hname => exact h.append (List.nodup_singleton name) (List.disjoint_singleton.mpr hname)

theorem of_mem_set {field : String × α} (h : field ∈ set name value fields) :
    field = (name, value) ∨ field ∈ fields := by
  induction fields with
  | nil => exact .inl (List.mem_singleton.mp h)
  | cons old rest ih =>
    obtain ⟨n, v⟩ := old
    rw [set] at h
    split at h
    · exact (List.mem_cons.mp h).imp_right (List.mem_cons_of_mem _)
    · rcases List.mem_cons.mp h with h | h
      · exact .inr (h ▸ List.mem_cons_self)
      · exact (ih h).imp_right (List.mem_cons_of_mem _)

end Fields

/-! ## Values without repeated names -/

namespace Json

mutual

/-- No object inside a value has two fields of the same name. -/
def Distinct : Json → Prop
  | .arr items => DistinctItems items
  | .obj fields => (fields.map Prod.fst).Nodup ∧ DistinctFields fields
  | _ => True

/-- The same for each item. -/
def DistinctItems : List Json → Prop
  | [] => True
  | item :: rest => item.Distinct ∧ DistinctItems rest

/-- The same for the value of each field. -/
def DistinctFields : List (String × Json) → Prop
  | [] => True
  | (_, value) :: rest => value.Distinct ∧ DistinctFields rest

end

theorem distinctItems_iff {items : List Json} :
    DistinctItems items ↔ ∀ item ∈ items, item.Distinct := by
  induction items with
  | nil => exact iff_of_true trivial nofun
  | cons item rest ih => rw [DistinctItems, ih, List.forall_mem_cons]

theorem distinctFields_iff {fields : List (String × Json)} :
    DistinctFields fields ↔ ∀ field ∈ fields, field.2.Distinct := by
  induction fields with
  | nil => exact iff_of_true trivial nofun
  | cons field rest ih => rw [DistinctFields, ih, List.forall_mem_cons]

theorem distinct_obj {fields : List (String × Json)} : (obj fields).Distinct ↔
    (fields.map Prod.fst).Nodup ∧ ∀ field ∈ fields, field.2.Distinct := by
  rw [Distinct, distinctFields_iff]

theorem distinct_nil : (obj []).Distinct := distinct_obj.mpr ⟨List.nodup_nil, nofun⟩

section Fields

variable {name : String} {value : Json} {fields : List (String × Json)}

theorem Distinct.get? (h : (obj fields).Distinct) (hvalue : Fields.get? name fields = some value) :
    value.Distinct :=
  (distinct_obj.mp h).2 _ (Fields.mem_of_get? hvalue)

theorem Distinct.set (h : (obj fields).Distinct) (hvalue : value.Distinct) (name : String) :
    (obj (Fields.set name value fields)).Distinct := by
  obtain ⟨hnodup, hvalues⟩ := distinct_obj.mp h
  refine distinct_obj.mpr ⟨Fields.nodup_set name value hnodup, fun field hfield => ?_⟩
  rcases Fields.of_mem_set hfield with rfl | hfield
  · exact hvalue
  · exact hvalues field hfield

end Fields

/-! ## Layers -/

mutual

/-- Layers laid over each other repeat no key. -/
theorem Distinct.overlay {lower : Json} (hlower : lower.Distinct) :
    (upper : Json) → upper.Distinct → (lower.overlay upper).Distinct
  | .obj fields, h => by
    cases lower with
    | obj below =>
      rw [overlay_obj]
      exact hlower.overlayFields fields h.2
    | _ => exact h
  | .null, h => h
  | .bool _, h => h
  | .int _, h => h
  | .float _, h => h
  | .str _, h => h
  | .letter _, h => h
  | .unpaired, h => h
  | .arr _, h => h

theorem Distinct.overlayFields {below : List (String × Json)} (hbelow : (obj below).Distinct) :
    (fields : List (String × Json)) → DistinctFields fields →
      (obj (overlayFields below fields)).Distinct
  | [], _ => by
    rw [overlayFields_nil]
    exact hbelow
  | (name, value) :: rest, h => by
    rw [Json.overlayFields]
    refine Distinct.overlayFields (hbelow.set ?_ name) rest h.2
    cases hold : Fields.get? name below with
    | none => exact h.1
    | some old => exact (hbelow.get? hold).overlay value h.1

end

theorem Distinct.nested {value : Json} (h : value.Distinct) (path : List String) :
    (Json.nested path value).Distinct := by
  induction path with
  | nil => exact h
  | cons name path ih =>
    exact distinct_obj.mpr ⟨List.nodup_singleton name, List.forall_mem_singleton.mpr ih⟩

/-! ## Wrapped values -/

mutual

theorem Distinct.unwrap? : (j : Json) → {value : Json} → j.Distinct → j.unwrap? = some value →
    value.Distinct
  | .arr items, value, h, hvalue => by
    rw [Json.unwrap?, Option.map_eq_some_iff] at hvalue
    obtain ⟨bare, hbare, rfl⟩ := hvalue
    exact DistinctItems.unwrap? items h hbare
  | .obj fields, value, h, hvalue => by
    rw [Json.unwrap?, Option.bind_eq_some_iff] at hvalue
    obtain ⟨bare, hbare, hvalue⟩ := hvalue
    have hdistinct : (obj bare).Distinct := DistinctFields.unwrap? fields h hbare
    unfold ofTable? at hvalue
    split at hvalue
    · cases hvalue
    · split at hvalue
      · next hwrapped =>
        cases hvalue
        exact hdistinct.get? hwrapped
      · cases hvalue
        exact hdistinct
  | .null, _, h, hvalue => by cases hvalue; exact h
  | .bool _, _, h, hvalue => by cases hvalue; exact h
  | .int _, _, h, hvalue => by cases hvalue; exact h
  | .float _, _, h, hvalue => by cases hvalue; exact h
  | .str _, _, h, hvalue => by cases hvalue; exact h
  | .letter _, _, h, hvalue => by cases hvalue; exact h
  | .unpaired, _, h, hvalue => by cases hvalue; exact h

theorem DistinctItems.unwrap? : (items : List Json) → {bare : List Json} → DistinctItems items →
    unwrapItems? items = some bare → DistinctItems bare
  | [], _, _, hbare => by cases hbare; trivial
  | item :: rest, _, h, hbare => by
    rw [unwrapItems?] at hbare
    simp only [Option.pure_def, Option.bind_eq_bind, Option.bind_eq_some_iff,
      Option.some.injEq] at hbare
    obtain ⟨value, hvalue, values, hvalues, rfl⟩ := hbare
    exact ⟨Distinct.unwrap? item h.1 hvalue, DistinctItems.unwrap? rest h.2 hvalues⟩

theorem DistinctFields.unwrap? : (fields : List (String × Json)) → {bare : List (String × Json)} →
    (obj fields).Distinct → unwrapFields? fields = some bare → (obj bare).Distinct
  | [], _, h, hbare => by cases hbare; exact h
  | (name, value) :: rest, _, h, hbare => by
    obtain ⟨hnodup, hvalue, hrest⟩ := h
    have hnames := map_fst_of_unwrapFields? hbare
    rw [unwrapFields?] at hbare
    simp only [Option.pure_def, Option.bind_eq_bind, Option.bind_eq_some_iff,
      Option.some.injEq] at hbare
    obtain ⟨bareValue, hbareValue, bareRest, hbareRest, rfl⟩ := hbare
    have hbare := DistinctFields.unwrap? rest ⟨(List.nodup_cons.mp hnodup).2, hrest⟩ hbareRest
    exact ⟨hnames ▸ hnodup, Distinct.unwrap? value hvalue hbareValue, hbare.2⟩

end

end Json

/-! ## Variables -/

namespace Variable

theorem distinct_tableOf {fields : List (String × Json)}
    (h : ∀ field ∈ fields, field.2.Distinct) : (tableOf fields).Distinct := by
  refine List.foldlRecOn (motive := fun table => (Json.obj table).Distinct) _ _ Json.distinct_nil ?_
  exact fun table htable field hfield => htable.set (h field hfield) field.1

theorem distinct_word (cs : List Char) : (word cs).Distinct := by
  unfold word
  split
  · trivial
  · split <;> trivial

theorem distinct_of_plain? {cs rest : List Char} {value : Json}
    (h : plain? cs = some (value, rest)) : value.Distinct := by
  unfold plain? at h
  split at h
  · cases h
    trivial
  · cases h
    trivial
  · obtain ⟨_, -, hvalue⟩ := Option.map_eq_some_iff.mp h
    cases hvalue
    trivial
  · cases h
    trivial
  · cases h
  · cases h
    exact distinct_word _

/-- The values read with some calls repeat no key. -/
structure DistinctReads (calls : Nat) : Prop where
  value : ∀ {cs value rest}, valueOf? calls cs = some (value, rest) → value.Distinct
  items : ∀ {cs items rest}, itemsOf? calls cs = some (items, rest) →
    ∀ item ∈ items, item.Distinct
  fields : ∀ {cs fields rest}, fieldsOf? calls cs = some (fields, rest) →
    ∀ field ∈ fields, field.2.Distinct

section Step

variable {calls : Nat} (ih : DistinctReads calls) {cs rest : List Char}

include ih

theorem DistinctReads.value_succ {value : Json}
    (h : valueOf? (calls + 1) cs = some (value, rest)) : value.Distinct := by
  unfold valueOf? at h
  split at h
  · obtain ⟨⟨items, _⟩, hitems, hvalue⟩ := Option.map_eq_some_iff.mp h
    cases hvalue
    exact Json.distinctItems_iff.mpr (ih.items hitems)
  · obtain ⟨⟨fields, _⟩, hfields, hvalue⟩ := Option.map_eq_some_iff.mp h
    cases hvalue
    exact distinct_tableOf (ih.fields hfields)
  · obtain ⟨⟨value, _⟩, hplain, hvalue⟩ := Option.map_eq_some_iff.mp h
    cases hvalue
    exact distinct_of_plain? hplain

theorem DistinctReads.items_succ {items : List Json}
    (h : itemsOf? (calls + 1) cs = some (items, rest)) :
    ∀ item ∈ items, item.Distinct := by
  unfold itemsOf? at h
  split at h
  · cases h
    nofun
  · obtain ⟨⟨item, _⟩, hitem, h⟩ := Option.bind_eq_some_iff.mp h
    dsimp only at h
    split at h
    · obtain ⟨⟨others, _⟩, hothers, h⟩ := Option.bind_eq_some_iff.mp h
      cases h
      exact List.forall_mem_cons.mpr ⟨ih.value hitem, ih.items hothers⟩
    · cases h
      exact List.forall_mem_singleton.mpr (ih.value hitem)
    · cases h

theorem DistinctReads.fields_succ {fields : List (String × Json)}
    (h : fieldsOf? (calls + 1) cs = some (fields, rest)) :
    ∀ field ∈ fields, field.2.Distinct := by
  unfold fieldsOf? at h
  split at h
  · cases h
    nofun
  · obtain ⟨⟨name, _⟩, -, h⟩ := Option.bind_eq_some_iff.mp h
    dsimp only at h
    split at h
    · obtain ⟨⟨value, _⟩, hvalue, h⟩ := Option.bind_eq_some_iff.mp h
      dsimp only at h
      split at h
      · obtain ⟨⟨others, _⟩, hothers, h⟩ := Option.bind_eq_some_iff.mp h
        cases h
        exact List.forall_mem_cons.mpr ⟨ih.value hvalue, ih.fields hothers⟩
      · cases h
        exact List.forall_mem_singleton.mpr (ih.value hvalue)
      · cases h
    · cases h

end Step

theorem distinctReads (calls : Nat) : DistinctReads calls := by
  induction calls with
  | zero => exact ⟨nofun, nofun, nofun⟩
  | succ calls ih => exact ⟨ih.value_succ, ih.items_succ, ih.fields_succ⟩

/-- The value of a variable repeats no key. -/
theorem distinct_value (text : String) : (value text).Distinct := by
  unfold value
  split
  · next h => exact (distinctReads _).value h
  · trivial

theorem distinct_layer (name text : String) : (layer name text).Distinct := by
  unfold layer
  split
  · exact Json.distinct_nil
  · exact (distinct_value text).nested _

end Variable

/-- The layer of an environment repeats no key. -/
theorem Environment.distinct_layer (environment : Environment) : environment.layer.Distinct := by
  refine List.foldlRecOn (motive := Json.Distinct) _ _ Json.distinct_nil ?_
  intro lower hlower layer hlayer
  obtain ⟨⟨name, text⟩, -, rfl⟩ := List.mem_map.mp hlayer
  exact hlower.overlay _ (Variable.distinct_layer name text)

end Tabletop
