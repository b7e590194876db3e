import Tabletop.Modifier.Combine

/-!
# Kinds of modifiers

Under a policy a modifier is one of three: a whole number, a dice expression that can be read, or a
dice expression that cannot.

* `Modifier.Kind` — the three kinds; `Modifier.kind` says that there are no others.
* `Modifier.isInert` — whether a modifier is of the third kind, which adds nothing to a formula.
* `Modifier.addedTerms_of_inert` and the like — what a modifier adds, kind by kind.
* `Modifier.origin_of_mem_addedFrom`, `Modifier.origin_of_mem_netTerms` — where an added term says
  it came from.
* `Formula.mem_combineWith` — where a combined term comes from.
-/

namespace Tabletop.Modifier

variable {policy : BoundsPolicy} {m : Modifier}

/-- What a modifier is under a policy. -/
inductive Kind (policy : BoundsPolicy) (m : Modifier) : Prop where
  /-- a whole number -/
  | integer (amount : Amount) : m.value = .integer amount → Kind policy m
  /-- a dice expression that can be read -/
  | readable (expression : String) (f : Formula) : m.value = .dice expression →
      Formula.readWith policy expression = .ok f → Kind policy m
  /-- a dice expression that cannot be read -/
  | inert (expression : String) (e : FormulaError) : m.value = .dice expression →
      Formula.readWith policy expression = .error e → Kind policy m

theorem kind (policy : BoundsPolicy) (m : Modifier) : m.Kind policy := by
  cases hvalue : m.value with
  | integer amount => exact .integer amount hvalue
  | dice expression =>
    cases hread : Formula.readWith policy expression with
    | ok f => exact .readable expression f hvalue hread
    | error e => exact .inert expression e hvalue hread

/-- Whether the modifier is a dice expression that cannot be read. -/
def isInert (policy : BoundsPolicy) (m : Modifier) : Bool :=
  match m.reading? policy with
  | some (.error _) => true
  | _ => false

/-! ## Whole numbers -/

section Integer

variable {amount : Amount} (h : m.value = .integer amount)

include h

theorem reading?_of_integer : m.reading? policy = none := by
  rw [reading?, h]

theorem addedTerms_of_integer (index : Nat) : m.addedTerms policy index = [] := by
  rw [addedTerms, reading?_of_integer h]

theorem isInert_of_integer : m.isInert policy = false := by
  rw [isInert, reading?_of_integer h]

theorem inertWarning?_of_integer : m.inertWarning? policy = none := by
  rw [inertWarning?, reading?_of_integer h]

end Integer

/-! ## Dice expressions -/

section Dice

variable {expression : String} (h : m.value = .dice expression)

include h

theorem reading?_of_dice : m.reading? policy = some (Formula.readWith policy expression) := by
  rw [reading?, h]

theorem integer?_of_dice : m.integer? = none := by
  rw [integer?, h]

variable {f : Formula} {e : FormulaError}

theorem addedTerms_of_readable (hread : Formula.readWith policy expression = .ok f)
    (index : Nat) :
    m.addedTerms policy index = f.terms.map (·.withOrigin (.modifier index)) := by
  rw [addedTerms, reading?_of_dice h, hread]

theorem isInert_of_readable (hread : Formula.readWith policy expression = .ok f) :
    m.isInert policy = false := by
  rw [isInert, reading?_of_dice h, hread]

theorem inertWarning?_of_readable (hread : Formula.readWith policy expression = .ok f) :
    m.inertWarning? policy = none := by
  rw [inertWarning?, reading?_of_dice h, hread]

theorem addedTerms_of_inert (hread : Formula.readWith policy expression = .error e)
    (index : Nat) : m.addedTerms policy index = [] := by
  rw [addedTerms, reading?_of_dice h, hread]

theorem isInert_of_inert (hread : Formula.readWith policy expression = .error e) :
    m.isInert policy = true := by
  rw [isInert, reading?_of_dice h, hread]

theorem inertWarning?_of_inert (hread : Formula.readWith policy expression = .error e) :
    m.inertWarning? policy = some (.inertModifier m.name e.message) := by
  rw [inertWarning?, reading?_of_dice h, hread]

end Dice

/-- The inert modifiers are the dice expressions that cannot be read. -/
theorem isInert_iff : m.isInert policy = true ↔
    ∃ expression e, m.value = .dice expression ∧
      Formula.readWith policy expression = .error e := by
  constructor
  · intro h
    cases m.kind policy with
    | integer amount hvalue =>
      rw [isInert_of_integer hvalue] at h
      cases h
    | readable expression f hvalue hread =>
      rw [isInert_of_readable hvalue hread] at h
      cases h
    | inert expression e hvalue hread => exact ⟨expression, e, hvalue, hread⟩
  · rintro ⟨expression, e, hvalue, hread⟩
    exact isInert_of_inert hvalue hread

/-! ## Origins of the added terms -/

theorem addedFrom_eq_flatMap (policy : BoundsPolicy) (first : Nat) (modifiers : List Modifier) :
    addedFrom policy first modifiers =
      (modifiers.zipIdx first).flatMap fun p => p.1.addedTerms policy p.2 := by
  induction modifiers generalizing first with
  | nil => rfl
  | cons m rest ih => rw [addedFrom_cons, ih, List.zipIdx_cons, List.flatMap_cons]

/-- A term that a modifier added has its place for origin, and that modifier is not inert. -/
theorem origin_of_mem_addedTerms {m : Modifier} {index : Nat} {t : Term}
    (h : t ∈ m.addedTerms policy index) :
    t.origin = .modifier index ∧ m.isInert policy = false := by
  cases m.kind policy with
  | integer amount hvalue =>
    rw [addedTerms_of_integer hvalue] at h
    cases h
  | readable expression f hvalue hread =>
    rw [addedTerms_of_readable hvalue hread] at h
    obtain ⟨t, -, rfl⟩ := List.mem_map.mp h
    exact ⟨rfl, isInert_of_readable hvalue hread⟩
  | inert expression e hvalue hread =>
    rw [addedTerms_of_inert hvalue hread] at h
    cases h

theorem origin_of_mem_addedFrom {modifiers : List Modifier} {first : Nat} {t : Term}
    (h : t ∈ addedFrom policy first modifiers) :
    ∃ k m, modifiers[k]? = some m ∧ m.isInert policy = false ∧
      t.origin = .modifier (first + k) := by
  induction modifiers generalizing first with
  | nil => cases h
  | cons m rest ih =>
    rw [addedFrom_cons] at h
    rcases List.mem_append.mp h with h | h
    · obtain ⟨horigin, hm⟩ := origin_of_mem_addedTerms h
      exact ⟨0, m, rfl, hm, horigin⟩
    · obtain ⟨k, m', hk, hm', horigin⟩ := ih h
      refine ⟨k + 1, m', hk, hm', ?_⟩
      rw [horigin, Nat.add_assoc, Nat.add_comm 1]

/-- The term of the net has an origin of its own. -/
theorem origin_of_mem_netTerms {modifiers : List Modifier} {t : Term}
    (h : t ∈ netTerms modifiers) : t.origin = .netModifier := by
  rw [netTerms] at h
  cases hnet : net? modifiers with
  | none =>
    rw [hnet] at h
    cases h
  | some net =>
    rw [hnet] at h
    obtain rfl := List.mem_singleton.mp h
    rfl

/-! ## The net -/

/-- There is no net exactly when there are no whole numbers; a total of zero is a term too. -/
theorem netTerms_eq_nil_iff {modifiers : List Modifier} :
    netTerms modifiers = [] ↔ modifiers.filterMap integer? = [] := by
  rw [netTerms, net?]
  cases modifiers.filterMap integer? <;> simp

end Tabletop.Modifier

namespace Tabletop.Formula

/-- A combined term is one of the formula itself, of the modifier at some place, or of the net. -/
theorem mem_combineWith {policy : BoundsPolicy} {base : Formula} {modifiers : List Modifier}
    {t : Term} : t ∈ (base.combineWith policy modifiers).terms ↔
      t ∈ base.terms ∨
        (∃ index, ∃ m : Modifier, modifiers[index]? = some m ∧ t ∈ m.addedTerms policy index) ∨
        t ∈ Modifier.netTerms modifiers := by
  have hadded : t ∈ Modifier.addedFrom policy 0 modifiers ↔
      ∃ index, ∃ m : Modifier, modifiers[index]? = some m ∧ t ∈ m.addedTerms policy index := by
    rw [Modifier.addedFrom_eq_flatMap, List.mem_flatMap]
    constructor
    · rintro ⟨⟨m, index⟩, hm, ht⟩
      exact ⟨index, m, List.mem_zipIdx_iff_getElem?.mp hm, ht⟩
    · rintro ⟨index, m, hm, ht⟩
      exact ⟨(m, index), List.mem_zipIdx_iff_getElem?.mpr hm, ht⟩
  rw [combineWith, List.mem_append, List.mem_append, hadded, or_assoc]

end Tabletop.Formula
