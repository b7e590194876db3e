import Tabletop.Amount
import Tabletop.Text.LowerCase
import Tabletop.Text.Blank

/-!
# Mechanics and criteria

How a game system resolves a roll.

* `Mechanic` — add everything up, count successes, or a formula of the system's own.
* `Criteria` — the comparison between a result and its target.

Both are chosen by name. A mechanic's name may be written with blanks or hyphens for underscores,
a criteria's name may have blanks around it, and case is ignored in both.
-/

namespace Tabletop

/-- The strategy that resolves a roll. -/
inductive Mechanic where
  /-- every die and modifier added up -/
  | rollAndSum
  /-- dice that meet the target counted as successes -/
  | dicePool
  /-- a formula of the system's own, summed term by term -/
  | custom
  deriving DecidableEq, Repr

namespace Mechanic

/-- The name a mechanic is shown by. -/
def name : Mechanic → String
  | rollAndSum => "sum"
  | dicePool => "pool"
  | custom => "custom"

/-- A hyphen or a space stands for an underscore. -/
def joinWords (c : Char) : Char :=
  if c = '-' ∨ c = ' ' then '_' else c

/-- The mechanic of a name. -/
def ofName? (name : String) : Option Mechanic :=
  match String.ofList ((Text.lowerCase name.toList).map joinWords) with
  | "sum" | "roll_and_sum" | "rollandsum" => some rollAndSum
  | "pool" | "dice_pool" | "dicepool" => some dicePool
  | "custom" => some custom
  | _ => none

end Mechanic

/-- The comparison between a value and a target. -/
inductive Criteria where
  | greaterEqual
  | lessEqual
  | equal
  deriving DecidableEq, Repr

namespace Criteria

/-- The symbol a criteria is shown by. -/
def symbol : Criteria → String
  | greaterEqual => ">="
  | lessEqual => "<="
  | equal => "=="

/-- Whether a value satisfies the criteria against a target. -/
def check (c : Criteria) (value target : Amount) : Bool :=
  match c with
  | greaterEqual => target ≤ value
  | lessEqual => value ≤ target
  | equal => value == target

/-- The criteria of a name. -/
def ofName? (name : String) : Option Criteria :=
  match String.ofList (Text.lowerCase (Text.trim name.toList)) with
  | ">=" | "ge" | "gte" | "greater_equal" | "over" => some greaterEqual
  | "<=" | "le" | "lte" | "less_equal" | "under" => some lessEqual
  | "==" | "=" | "eq" | "equal" | "exact" => some equal
  | _ => none

end Criteria

end Tabletop
