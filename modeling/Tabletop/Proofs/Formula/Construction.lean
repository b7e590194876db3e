import Tabletop.Json.Reader
import Tabletop.Proofs.Formula.RoundTrip
import Tabletop.Proofs.Modifier.Kinds
import Tabletop.Storage.Formula

/-!
# How a formula comes about

A formula is read from a text, made of a list of terms or taken from a stored form, and then
combined with modifiers any number of times. A text that is read gives terms, and so does a list
that is accepted; a stored form may be without any.

* `Formula.Construction` — the ways to build a formula, and `Construction.build?` what they give.
* `Construction.StaysEmpty` — a formula stored without terms to which nothing is ever added.
* `Formula.terms_combineWith_eq_nil_iff` — combining keeps terms, and adds some unless every
  modifier is inert.
* `Construction.terms_eq_nil_iff` — a formula that has been built is without terms in that one way
  only.
-/

namespace Tabletop

/-! ## What combining adds -/

namespace Modifier

variable {policy : BoundsPolicy}

/-- The modifiers that add neither a term of their own nor to the net are the inert ones. -/
theorem adds_nothing_iff {m : Modifier} (index : Nat) :
    m.addedTerms policy index = [] ∧ m.integer? = none ↔ m.isInert policy = true := by
  cases m.kind policy with
  | integer amount hvalue =>
    have hinteger : m.integer? = some amount := by rw [integer?, hvalue]
    simp [hinteger, isInert_of_integer hvalue]
  | readable expression f hvalue hread =>
    have hterms : f.terms ≠ [] := Formula.terms_ne_nil_of_readWith hread
    simp [addedTerms_of_readable hvalue hread, isInert_of_readable hvalue hread, hterms]
  | inert expression e hvalue hread =>
    simp [addedTerms_of_inert hvalue hread, integer?_of_dice hvalue, isInert_of_inert hvalue hread]

/-- Modifiers together add nothing when each of them is inert. -/
theorem all_add_nothing_iff {modifiers : List Modifier} (first : Nat) :
    addedFrom policy first modifiers = [] ∧ netTerms modifiers = [] ↔
      ∀ m ∈ modifiers, m.isInert policy = true := by
  rw [netTerms_eq_nil_iff, List.filterMap_eq_nil_iff]
  induction modifiers generalizing first with
  | nil => simp
  | cons m rest ih =>
    rw [addedFrom_cons, List.append_eq_nil_iff, List.forall_mem_cons, and_and_and_comm,
      adds_nothing_iff, ih (first + 1), List.forall_mem_cons]

end Modifier

namespace Formula

theorem terms_combineWith_eq_nil_iff {policy : BoundsPolicy} {base : Formula}
    {modifiers : List Modifier} : (base.combineWith policy modifiers).terms = [] ↔
      base.terms = [] ∧ ∀ m ∈ modifiers, m.isInert policy = true := by
  rw [combineWith, List.append_eq_nil_iff, List.append_eq_nil_iff, and_assoc,
    Modifier.all_add_nothing_iff]

/-- Falling back on the formula itself where no terms come together changes nothing. -/
theorem getD_ofTerms?_combineWith (policy : BoundsPolicy) (base : Formula)
    (modifiers : List Modifier) :
    (ofTerms? (base.combineWith policy modifiers).terms).getD base =
      base.combineWith policy modifiers := by
  cases hterms : (base.combineWith policy modifiers).terms with
  | nil =>
    have hbase := (terms_combineWith_eq_nil_iff.mp hterms).1
    exact congrArg Formula.mk (hbase.trans hterms.symm)
  | cons t rest => exact congrArg Formula.mk hterms.symm

end Formula

/-! ## Stored formulas -/

namespace Json

theorem as?_list_eq_nil_iff {α : Type} [JsonForm α] {j : Json} :
    j.as? (List α) = some [] ↔ j = .arr [] := by
  constructor
  · intro h
    cases j with
    | arr items =>
      cases items with
      | nil => rfl
      | cons item items =>
        have hitems : (item :: items).mapM (fun item => item.as? α) = some [] := h
        rw [List.mapM_cons] at hitems
        obtain ⟨a, -, hrest⟩ := Option.bind_eq_some_iff.mp hitems
        obtain ⟨as, -, hcons⟩ := Option.bind_eq_some_iff.mp hrest
        cases hcons
    | _ => cases h
  · rintro rfl
    rfl

/-- A stored formula is a record of its terms. -/
theorem as?_formula_eq_some_iff {j : Json} {f : Formula} : j.as? Formula = some f ↔
    ∃ value, j.record? ["terms"] false = some [some value] ∧
      value.as? (List Term) = some f.terms := by
  constructor
  · intro h
    simp only [as?, JsonForm.read?] at h
    obtain ⟨values, hvalues, h⟩ := Option.bind_eq_some_iff.mp h
    split at h
    · obtain ⟨terms, hterms, hf⟩ := Option.bind_eq_some_iff.mp h
      cases hf
      obtain ⟨value, rfl, hvalue⟩ := Option.bind_eq_some_iff.mp hterms
      exact ⟨value, hvalues, hvalue⟩
    · cases h
  · rintro ⟨value, hvalues, hvalue⟩
    have hrequired : required (some value) = some f.terms := hvalue
    simp [as?, JsonForm.read?, hvalues, hrequired]

end Json

/-! ## Ways to build a formula -/

namespace Formula

/-- A way to build a formula. -/
inductive Construction where
  /-- read from a text, dice out of range refused -/
  | read (text : String)
  /-- read from a text under a policy -/
  | readWith (policy : BoundsPolicy) (text : String)
  /-- made of terms -/
  | ofTerms (terms : List Term)
  /-- taken from its stored form -/
  | decode (json : Json)
  /-- a formula together with modifiers, dice out of range refused -/
  | combine (base : Construction) (modifiers : List Modifier)
  /-- a formula together with modifiers, read under a policy -/
  | combineWith (policy : BoundsPolicy) (base : Construction) (modifiers : List Modifier)
  /-- the same with the warnings of modifiers that cannot be read, which are left out here -/
  | combineChecked (policy : BoundsPolicy) (base : Construction) (modifiers : List Modifier)

namespace Construction

/-- The formula that is built; none when a text, a list or a stored form is refused. -/
def build? : Construction → Option Formula
  | read text => (Formula.read text).toOption
  | readWith policy text => (Formula.readWith policy text).toOption
  | ofTerms terms => ofTerms? terms
  | decode json => json.as? Formula
  | combine base modifiers => base.build?.map fun f => f.combine modifiers
  | combineWith policy base modifiers => base.build?.map fun f => f.combineWith policy modifiers
  | combineChecked policy base modifiers =>
    base.build?.map fun f => (f.combineChecked policy modifiers).1

/-- A list without terms is taken from its stored form, and every modifier it is combined with is
inert. -/
def StaysEmpty : Construction → Prop
  | read _ | readWith _ _ | ofTerms _ => False
  | decode json => json.record? ["terms"] false = some [some (.arr [])]
  | combine base modifiers => base.StaysEmpty ∧ ∀ m ∈ modifiers, m.isInert .reject = true
  | combineWith policy base modifiers | combineChecked policy base modifiers =>
    base.StaysEmpty ∧ ∀ m ∈ modifiers, m.isInert policy = true

/-- A text that is read gives terms. -/
theorem terms_ne_nil_of_toOption {policy : BoundsPolicy} {text : String} {f : Formula}
    (h : (Formula.readWith policy text).toOption = some f) : f.terms ≠ [] := by
  cases hread : Formula.readWith policy text with
  | error e =>
    rw [hread] at h
    cases h
  | ok g =>
    rw [hread] at h
    obtain rfl := Option.some.inj h
    exact terms_ne_nil_of_readWith hread

/-- **A formula has terms, unless it was stored without.** Whichever way a formula is built, and
however often it is combined with modifiers, it has terms, but for one case: it goes back to a
stored form with an empty list of terms, and each modifier since was inert. -/
theorem terms_eq_nil_iff {c : Construction} {f : Formula} (h : c.build? = some f) :
    f.terms = [] ↔ c.StaysEmpty := by
  induction c generalizing f with
  | read text => exact iff_of_false (terms_ne_nil_of_toOption h) id
  | readWith policy text => exact iff_of_false (terms_ne_nil_of_toOption h) id
  | ofTerms terms =>
    cases terms with
    | nil => cases h
    | cons t rest =>
      obtain rfl := Option.some.inj h
      exact iff_of_false (List.cons_ne_nil t rest) id
  | decode json =>
    obtain ⟨value, hrecord, hvalue⟩ := Json.as?_formula_eq_some_iff.mp h
    rw [StaysEmpty, hrecord, Option.some.injEq, List.cons.injEq, Option.some.injEq,
      ← Json.as?_list_eq_nil_iff (α := Term), hvalue, Option.some.injEq]
    exact (and_iff_left rfl).symm
  | combine base modifiers ih =>
    obtain ⟨g, hg, rfl⟩ := Option.map_eq_some_iff.mp h
    rw [Formula.combine, terms_combineWith_eq_nil_iff, ih hg, StaysEmpty]
  | combineWith policy base modifiers ih =>
    obtain ⟨g, hg, rfl⟩ := Option.map_eq_some_iff.mp h
    rw [terms_combineWith_eq_nil_iff, ih hg, StaysEmpty]
  | combineChecked policy base modifiers ih =>
    obtain ⟨g, hg, rfl⟩ := Option.map_eq_some_iff.mp h
    rw [Formula.combineChecked, terms_combineWith_eq_nil_iff, ih hg, StaysEmpty]

/-- A modifier that is inert when dice out of range are refused adds its term when they are
clamped. -/
theorem terms_eq_nil_iff_clamped :
    let stored := decode (.obj [("terms", .arr [])])
    let modifiers : List Modifier := [⟨"Huge", .dice "500d6"⟩]
    ((combine stored modifiers).build? = some ⟨[]⟩ ∧ (combine stored modifiers).StaysEmpty) ∧
    ((combineWith .clamp stored modifiers).build? =
        some ⟨[⟨.plus, .dice 100 6, .modifier 0⟩]⟩ ∧
      ¬ (combineWith .clamp stored modifiers).StaysEmpty) := by
  intro stored modifiers
  have hempty : (combine stored modifiers).build? = some ⟨[]⟩ := by decide
  have hclamped : (combineWith .clamp stored modifiers).build? =
      some ⟨[⟨.plus, .dice 100 6, .modifier 0⟩]⟩ := by decide
  exact ⟨⟨hempty, (terms_eq_nil_iff hempty).mp rfl⟩, hclamped,
    (terms_eq_nil_iff hclamped).not.mp (List.cons_ne_nil _ _)⟩

/-- A stored form with an empty list of terms is taken, though such a list is refused. -/
theorem decode_without_terms :
    ofTerms? [] = none ∧ ∃ json, Json.read? "\x7b\"terms\": []\x7d" = some json ∧
      (decode json).build? = some ⟨[]⟩ := by
  have hread : (Json.read? "\x7b\"terms\": []\x7d").bind (fun json => (decode json).build?) =
      some ⟨[]⟩ := by decide +kernel
  exact ⟨rfl, Option.bind_eq_some_iff.mp hread⟩

end Construction

end Formula

end Tabletop
