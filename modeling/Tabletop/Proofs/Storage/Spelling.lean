import Mathlib.Data.List.Forall2
import Mathlib.Data.List.Nodup
import Mathlib.Data.List.Perm.Basic
import Tabletop.Json.Form

/-!
# Spellings

A value has many JSON forms that are read as it: the fields of a record may stand in any order and
among unknown ones, and some choices have several names.

* `Json.Spells` — whether a JSON value is one of the forms of a value.
* `LawfulJson` — a type whose values are written as one of their forms and read from all of them.
* `Json.Record` — the forms of a record, given those of its fields; `Json.record?_of_record` reads
  them.
-/

namespace Tabletop

/-- A type whose values have JSON forms. -/
class JsonSpelling (α : Type) where
  /-- whether a JSON value is one of the forms of a value -/
  Spells : α → Json → Prop

namespace Json

/-- Whether a JSON value is one of the forms of a value. -/
def Spells {α : Type} [JsonSpelling α] (a : α) (j : Json) : Prop :=
  JsonSpelling.Spells a j

/-- The forms of a record whose fields have the forms of `specs`: an object with these fields in any
order, and beside them any fields with other names. -/
def Record (specs : List (String × (Json → Prop))) : Json → Prop
  | .obj fields => ∃ known others, fields.Perm (known ++ others) ∧
      List.Forall₂ (fun spec field => field.1 = spec.1 ∧ spec.2 field.2) specs known ∧
      ∀ field ∈ others, field.1 ∉ specs.map Prod.fst
  | _ => False

end Json

open Json

/-- A type whose values are written as one of their forms and read from all of them. -/
class LawfulJson (α : Type) [JsonForm α] [JsonSpelling α] : Prop where
  spells_of : ∀ a : α, Spells a (of a)
  as?_of_spells : ∀ {a : α} {j : Json}, Spells a j → j.as? α = some a

/-- A type that `null` is no value of. -/
class RefusesNull (α : Type) [JsonForm α] : Prop where
  as?_null : Json.null.as? α = none

export LawfulJson (spells_of as?_of_spells)

/-! ## Values without parts -/

instance : JsonSpelling Bool where
  Spells b j := j = .bool b

instance : JsonSpelling String where
  Spells s j := j = .str s

instance : JsonSpelling Amount where
  Spells a j := j = .int a.toInt

instance : JsonSpelling UInt32 where
  Spells n j := j = .int n.toNat

instance : JsonSpelling UInt64 where
  Spells n j := j = .int n.toNat

instance : JsonSpelling Nat where
  Spells n j := j = .int n

instance {α : Type} [JsonSpelling α] : JsonSpelling (Option α) where
  Spells
    | some a, j => Spells a j
    | none, j => j = .null

instance {α : Type} [JsonSpelling α] : JsonSpelling (List α) where
  Spells items j := ∃ forms, j = .arr forms ∧ List.Forall₂ Spells items forms

instance : RefusesNull Bool := ⟨rfl⟩

instance : RefusesNull String := ⟨rfl⟩

instance : RefusesNull Amount := ⟨rfl⟩

instance : RefusesNull UInt32 := ⟨rfl⟩

instance : RefusesNull UInt64 := ⟨rfl⟩

instance : LawfulJson Bool where
  spells_of _ := rfl
  as?_of_spells h := h ▸ rfl

instance : LawfulJson String where
  spells_of _ := rfl
  as?_of_spells h := h ▸ rfl

instance : LawfulJson Amount where
  spells_of _ := rfl
  as?_of_spells {a _} h := h ▸ Amount.ofInt?_toInt a

theorem Json.below?_int {bound n : Nat} (h : n < bound) : below? bound (.int n) = some n :=
  if_pos h

instance : LawfulJson UInt32 where
  spells_of _ := rfl
  as?_of_spells {n j} h := by
    have hread : (Json.int n.toNat).as? UInt32 =
        (below? UInt32.size (.int n.toNat)).map UInt32.ofNat := rfl
    rw [show j = .int n.toNat from h, hread, below?_int n.toNat_lt_size, Option.map_some,
      UInt32.ofNat_toNat]

instance : LawfulJson UInt64 where
  spells_of _ := rfl
  as?_of_spells {n j} h := by
    have hread : (Json.int n.toNat).as? UInt64 =
        (below? UInt64.size (.int n.toNat)).map UInt64.ofNat := rfl
    rw [show j = .int n.toNat from h, hread, below?_int n.toNat_lt_size, Option.map_some,
      UInt64.ofNat_toNat]

instance : LawfulJson Nat where
  spells_of _ := rfl
  as?_of_spells h := h ▸ rfl

/-! ## Values that may be missing, and lists -/

/-- Items that are all read are read as a list. -/
theorem Json.mapM_of_forall₂ {α β : Type} {read? : β → Option α} {items : List α} {forms : List β}
    (h : List.Forall₂ (fun item form => read? form = some item) items forms) :
    forms.mapM read? = some items := by
  induction h with
  | nil => rfl
  | cons hitem _ ih =>
    rw [List.mapM_cons, hitem, ih]
    rfl

section Parts

variable {α : Type} [JsonForm α]

theorem Json.as?_option {j : Json} (h : j ≠ .null) : j.as? (Option α) = (j.as? α).map some := by
  cases j <;> first | exact absurd rfl h | rfl

variable [JsonSpelling α] [LawfulJson α]

instance [RefusesNull α] : LawfulJson (Option α) where
  spells_of
    | some a => spells_of a
    | none => rfl
  as?_of_spells {a j} h := by
    cases a with
    | none => exact h ▸ rfl
    | some a =>
      have hread : j.as? α = some a := as?_of_spells h
      have hj : j ≠ .null := by
        rintro rfl
        rw [RefusesNull.as?_null] at hread
        cases hread
      rw [as?_option hj, hread, Option.map_some]

instance : LawfulJson (List α) where
  spells_of items := by
    refine ⟨_, rfl, ?_⟩
    rw [List.forall₂_map_right_iff, List.forall₂_same]
    exact fun a _ => spells_of a
  as?_of_spells {items j} h := by
    obtain ⟨forms, rfl, hforms⟩ := h
    exact mapM_of_forall₂ (hforms.imp fun _ _ => as?_of_spells)

end Parts

/-! ## Records -/

namespace Json

theorem named_append (name : String) (fields others : List (String × Json)) :
    named name (fields ++ others) = named name fields ++ named name others :=
  List.filterMap_append

theorem named_of_not_mem {name : String} {fields : List (String × Json)}
    (h : name ∉ fields.map Prod.fst) : named name fields = [] := by
  refine List.filterMap_eq_nil_iff.mpr fun field hfield => if_neg ?_
  rintro rfl
  exact h (List.mem_map_of_mem hfield)

/-- A field whose name stands once. -/
theorem named_of_mem {name : String} {value : Json} {fields : List (String × Json)}
    (hnodup : (fields.map Prod.fst).Nodup) (hmem : (name, value) ∈ fields) :
    named name fields = [value] := by
  obtain ⟨front, back, rfl⟩ := List.append_of_mem hmem
  rw [List.map_append, List.map_cons, List.nodup_middle, List.nodup_cons, List.mem_append,
    not_or] at hnodup
  have hhead : named name ((name, value) :: back) = value :: named name back :=
    List.filterMap_cons_some (if_pos rfl)
  rw [named_append, hhead, named_of_not_mem hnodup.1.1, named_of_not_mem hnodup.1.2]
  rfl

/-- A known field is found in any order and among unknown ones. -/
theorem field?_of_perm {name : String} {value : Json} {fields known others : List (String × Json)}
    (hperm : fields.Perm (known ++ others)) (hnodup : (known.map Prod.fst).Nodup)
    (hmem : (name, value) ∈ known) (hothers : name ∉ others.map Prod.fst) :
    field? fields name = some (some value) := by
  have hnamed : named name fields = [value] := by
    refine List.perm_singleton.mp ((hperm.filterMap _).trans (.of_eq ?_))
    have h := named_append name known others
    rwa [named_of_mem hnodup hmem, named_of_not_mem hothers, List.append_nil] at h
  rw [field?, hnamed]

/-- The names of fields that have the forms of `specs`. -/
theorem names_of_forall₂ {specs : List (String × (Json → Prop))} {fields : List (String × Json)}
    (h : List.Forall₂ (fun spec field => field.1 = spec.1 ∧ spec.2 field.2) specs fields) :
    fields.map Prod.fst = specs.map Prod.fst := by
  induction h with
  | nil => rfl
  | cons hfield _ ih => rw [List.map_cons, List.map_cons, hfield.1, ih]

/-- The fields of a record are read from each of its forms. -/
theorem record?_of_record {specs : List (String × (Json → Prop))} {j : Json} (names : List String)
    (hspecs : specs.map Prod.fst = names) (hnodup : names.Nodup) (h : Record specs j)
    (optional : Bool) : ∃ values : List Json, j.record? names optional = some (values.map some) ∧
      List.Forall₂ (fun spec value => spec.2 value) specs values := by
  subst hspecs
  cases j with
  | obj fields =>
    obtain ⟨known, others, hperm, hknown, hothers⟩ := h
    have hnames := names_of_forall₂ hknown
    have hfield : ∀ field ∈ known, field? fields field.1 = some (some field.2) := by
      intro field hmem
      refine field?_of_perm hperm (hnames ▸ hnodup) hmem fun hother => ?_
      obtain ⟨other, hmemOther, hname⟩ := List.mem_map.mp hother
      refine hothers other hmemOther ?_
      rw [hname, ← hnames]
      exact List.mem_map_of_mem hmem
    refine ⟨known.map Prod.snd, ?_, List.forall₂_map_right_iff.mpr (hknown.imp fun _ _ h => h.2)⟩
    rw [← hnames]
    refine mapM_of_forall₂ ?_
    simp only [List.forall₂_map_left_iff, List.forall₂_map_right_iff]
    exact List.forall₂_same.mpr hfield
  | _ => exact h.elim

/-- The fields in their own order, with nothing beside them, are a form of the record. -/
theorem record_of_forall₂ {specs : List (String × (Json → Prop))} {fields : List (String × Json)}
    (h : List.Forall₂ (fun spec field => field.1 = spec.1 ∧ spec.2 field.2) specs fields) :
    Record specs (.obj fields) :=
  ⟨fields, [], .of_eq (List.append_nil fields).symm, h, nofun⟩

/-- Fields put in another order, with unknown ones among them, are a form of the same record. -/
theorem Record.rearranged {specs : List (String × (Json → Prop))}
    {fields rearranged : List (String × Json)} (h : Record specs (.obj fields))
    (unknown : List (String × Json)) (hperm : rearranged.Perm (fields ++ unknown))
    (hunknown : ∀ field ∈ unknown, field.1 ∉ specs.map Prod.fst) :
    Record specs (.obj rearranged) := by
  obtain ⟨known, others, hfields, hknown, hothers⟩ := h
  refine ⟨known, others ++ unknown, ?_, hknown, List.forall_mem_append.mpr ⟨hothers, hunknown⟩⟩
  rw [← List.append_assoc]
  exact hperm.trans (hfields.append_right unknown)

end Json

end Tabletop
