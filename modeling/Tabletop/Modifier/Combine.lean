import Tabletop.Formula.Reading
import Tabletop.Modifier.Basic
import Tabletop.Warning

/-!
# Combining a formula with modifiers

The combined formula is the base formula, then the terms of every dice modifier that can be read,
in order, then one constant for all whole-number modifiers together.

* `Modifier.reading?` — what the expression of a dice modifier reads as.
* `Modifier.net?` — the net of the whole-number modifiers; none when there are none.
* `Formula.combineWith` — the combined formula.
* `Modifier.inertWarnings` — one warning for each dice modifier that cannot be read.
* `Formula.combineChecked` — the formula and the warnings together.
-/

namespace Tabletop

/-- The term with another origin. -/
def Term.withOrigin (t : Term) (origin : Origin) : Term :=
  { t with origin := origin }

namespace Modifier

/-- What the expression of a dice modifier reads as; none for a whole number. -/
def reading? (policy : BoundsPolicy) (m : Modifier) : Option (Except FormulaError Formula) :=
  match m.value with
  | .integer _ => none
  | .dice expression => some (Formula.readWith policy expression)

/-- The terms that the modifier at `index` adds: those of its expression, if that can be read. -/
def addedTerms (policy : BoundsPolicy) (index : Nat) (m : Modifier) : List Term :=
  match m.reading? policy with
  | some (.ok f) => f.terms.map (·.withOrigin (.modifier index))
  | _ => []

/-- The warning of a dice modifier that cannot be read. -/
def inertWarning? (policy : BoundsPolicy) (m : Modifier) : Option Warning :=
  match m.reading? policy with
  | some (.error e) => some (.inertModifier m.name e.message)
  | _ => none

/-- The amount of a whole-number modifier. -/
def integer? (m : Modifier) : Option Amount :=
  match m.value with
  | .integer amount => some amount
  | .dice _ => none

/-- The net of the whole-number modifiers, added in order and stopping at the ends of the range. -/
def net? (modifiers : List Modifier) : Option Amount :=
  match modifiers.filterMap integer? with
  | [] => none
  | amounts => some (Amount.total 0 amounts)

/-- The constant term of the net of the whole-number modifiers. -/
def netTerms (modifiers : List Modifier) : List Term :=
  match net? modifiers with
  | some net => [(Term.constant net).withOrigin .netModifier]
  | none => []

/-- The terms added by a list of modifiers whose first one is at `index`. -/
def addedFrom (policy : BoundsPolicy) (index : Nat) : List Modifier → List Term
  | [] => []
  | m :: rest => m.addedTerms policy index ++ addedFrom policy (index + 1) rest

/-- The warnings of the dice modifiers that cannot be read, in order. -/
def inertWarnings (policy : BoundsPolicy) (modifiers : List Modifier) : List Warning :=
  modifiers.filterMap (inertWarning? policy)

@[simp] theorem addedFrom_nil (policy : BoundsPolicy) (index : Nat) :
    addedFrom policy index [] = [] := rfl

@[simp] theorem addedFrom_cons (policy : BoundsPolicy) (index : Nat) (m : Modifier)
    (rest : List Modifier) : addedFrom policy index (m :: rest) =
      m.addedTerms policy index ++ addedFrom policy (index + 1) rest := rfl

end Modifier

namespace Formula

/-- The formula together with modifiers, whose expressions are read under a policy. -/
def combineWith (policy : BoundsPolicy) (base : Formula) (modifiers : List Modifier) : Formula :=
  ⟨base.terms ++ Modifier.addedFrom policy 0 modifiers ++ Modifier.netTerms modifiers⟩

/-- The formula together with modifiers, and the warnings of those that cannot be read. -/
def combineChecked (policy : BoundsPolicy) (base : Formula) (modifiers : List Modifier) :
    Formula × List Warning :=
  (base.combineWith policy modifiers, Modifier.inertWarnings policy modifiers)

/-- The formula together with modifiers, dice out of range refused. -/
def combine (base : Formula) (modifiers : List Modifier) : Formula :=
  combineWith .reject base modifiers

end Formula

end Tabletop
