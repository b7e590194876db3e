/-!
# Fields

Values under names, in the order in which the names came.

* `Fields.get?` — the value under a name.
* `Fields.set` — puts a value under a name.

`get?_set` and `get?_set_ne` say what is found after a value has been put.
-/

namespace Tabletop.Fields

variable {α : Type}

/-- The value of the first field with a name. -/
def get? (name : String) : List (String × α) → Option α
  | [] => none
  | (n, value) :: rest => if n = name then some value else get? name rest

/-- Sets a field: in its place when there is one of that name, otherwise behind the others. -/
def set (name : String) (value : α) : List (String × α) → List (String × α)
  | [] => [(name, value)]
  | (n, old) :: rest =>
    if n = name then (name, value) :: rest else (n, old) :: set name value rest

@[simp] theorem get?_set (name : String) (value : α) (fields : List (String × α)) :
    get? name (set name value fields) = some value := by
  induction fields with
  | nil => simp [set, get?]
  | cons field rest ih =>
    obtain ⟨n, old⟩ := field
    by_cases h : n = name <;> simp [set, get?, h, ih]

/-- Setting a field leaves every other field as it is. -/
theorem get?_set_ne {name other : String} (h : other ≠ name) (value : α)
    (fields : List (String × α)) :
    get? other (set name value fields) = get? other fields := by
  induction fields with
  | nil => simp [set, get?, h.symm]
  | cons field rest ih =>
    obtain ⟨n, old⟩ := field
    by_cases hn : n = name
    · subst hn
      simp [set, get?, h.symm]
    · by_cases ho : n = other
      · subst ho
        simp [set, get?, hn]
      · simp [set, get?, hn, ho, ih]

end Tabletop.Fields
