import Tabletop.Config
import Tabletop.Dice.Roll

/-!
# Judging a roll

An `Evaluation` is a total and, where the configuration names something to compare with, a verdict.

* A summed roll adds the values of its terms from the left, and compares the total with the target.
* A pool counts the faces of its dice that satisfy the criteria against the pool's target, each
  explosion by itself, and compares the count with the difficulty. Subtracted dice and constants
  are not in the pool.
* A custom roll is summed, and needs a dice term.
-/

namespace Tabletop

/-- Why a roll has no outcome. -/
inductive RollError where
  /-- the formula cannot be read -/
  | formula (error : FormulaError)
  /-- the configuration cannot be used -/
  | config (error : ConfigError)
  /-- a pool or a custom roll has no dice -/
  | noDice (mechanic : Mechanic)
  deriving DecidableEq, Repr

/-- The wording of a roll error. -/
def RollError.message : RollError → String
  | formula error => error.message
  | config error => error.message
  | noDice mechanic => "no dice to roll for " ++ mechanic.name ++ " mechanic"

/-- The judgement of a roll. -/
structure Evaluation where
  /-- the sum, or the number of successes of a pool -/
  total : Amount
  /-- the verdict, where there was something to compare with -/
  success : Option Bool
  /-- what the total was compared with -/
  against : Option Amount
  deriving DecidableEq, Repr

namespace Evaluation

/-- The total of a summed roll, `extra` included. -/
def sumTotal (rolled : List RolledTerm) (extra : Amount) : Amount :=
  Amount.total extra (rolled.map RolledTerm.value)

/-- Judges a summed roll. -/
def ofSum (config : Config) (rolled : List RolledTerm) (extra : Amount) : Evaluation where
  total := sumTotal rolled extra
  success := config.target.map (config.criteria.check (sumTotal rolled extra))
  against := config.target

/-- Whether a rolled term belongs to the pool: dice, not subtracted. -/
def inPool (t : RolledTerm) : Bool :=
  t.term.isDice && t.term.sign == .plus

/-- The faces of the pool's dice. -/
def poolFaces (rolled : List RolledTerm) : List UInt32 :=
  (rolled.filter inPool).flatMap RolledTerm.faces

/-- How many faces of the pool satisfy the criteria. -/
def successes (config : Config) (rolled : List RolledTerm) : Nat :=
  (poolFaces rolled).countP fun face => config.criteria.check (.ofWord face) config.poolTarget

/-- Judges a pool. -/
def ofPool (config : Config) (rolled : List RolledTerm) : Evaluation where
  total := .ofNat (successes config rolled)
  success := config.difficulty.map fun d => decide (d ≤ Int64.ofNat (successes config rolled))
  against := config.difficulty

/-- Judges a roll under a configuration; `extra` is added to summed totals. -/
def of (config : Config) (rolled : List RolledTerm) (extra : Amount) :
    Except RollError Evaluation :=
  match config.mechanic with
  | .rollAndSum => .ok (ofSum config rolled extra)
  | .dicePool =>
    if rolled.any inPool then .ok (ofPool config rolled) else .error (.noDice .dicePool)
  | .custom =>
    if rolled.any (·.term.isDice) then .ok (ofSum config rolled extra)
    else .error (.noDice .custom)

end Evaluation

end Tabletop
