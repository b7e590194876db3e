import Tabletop.Formula.Basic

/-!
# Range of a formula

What a formula can total when no die explodes.

* `Formula.diceCount` — how many dice it rolls.
* `Formula.min`, `Formula.max` — its least and greatest total. The terms are added from the left,
  and a sum beyond the range of amounts stops at the end of the range.
* `Formula.average` — its expected total in floating point, terms added from the left.
-/

namespace Tabletop

namespace Term

/-- The least and the greatest contribution of a term. -/
def range (t : Term) : Amount × Amount :=
  match t.kind with
  | .constant value => (t.sign.apply value, t.sign.apply value)
  | .dice count sides =>
    let low := Amount.ofWord count
    let high := low * Amount.ofWord sides
    match t.sign with
    | .plus => (low, high)
    | .minus => (-high, -low)

/-- The expected contribution of a term: a die of `n` sides is worth `(1 + n) / 2`. -/
def average (t : Term) : Float :=
  match t.kind with
  | .constant value => (t.sign.apply value).toFloat
  | .dice count sides =>
    let mean := count.toFloat * (1.0 + sides.toFloat) / 2.0
    match t.sign with
    | .plus => mean
    | .minus => -mean

/-- How many dice a term rolls. -/
def diceCount (t : Term) : UInt32 :=
  match t.kind with
  | .dice count _ => count
  | .constant _ => 0

end Term

namespace Formula

/-- How many dice the formula rolls. -/
def diceCount (f : Formula) : UInt32 :=
  (f.terms.map Term.diceCount).foldl (· + ·) 0

/-- The least total without explosions. -/
def min (f : Formula) : Amount :=
  Amount.total 0 (f.terms.map fun t => t.range.1)

/-- The greatest total without explosions. -/
def max (f : Formula) : Amount :=
  Amount.total 0 (f.terms.map fun t => t.range.2)

/-- The expected total without explosions. The empty sum is negative zero, which leaves every
first summand as it is. -/
def average (f : Formula) : Float :=
  (f.terms.map Term.average).foldl (· + ·) (-0.0)

end Formula

end Tabletop
