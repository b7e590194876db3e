import Tabletop.Formula.Reading
import Tabletop.Mechanic

/-!
# Mechanic configuration

A `Config` says how a game system resolves its rolls: the mechanic, the formula rolled when a
request names none, the comparison with a target, and how dice explode.

* `Config.validate` — refuses the combinations that cannot be judged.
* `Config.thresholdFor` — the roll from which a die explodes.
* `Config.poolTarget` — what a die of a pool has to meet.
-/

namespace Tabletop

/-- The target of a pool's dice when none is configured. -/
def defaultPoolTarget : Amount := 8

/-- The most explosions of one die unless configured otherwise. -/
def defaultExplosionCap : UInt32 := 1000

/-- What is wrong with a target. -/
inductive TargetFault where
  /-- a pool needs a target of at least one -/
  | belowOne (target : Amount)
  /-- a difficulty has nothing to be compared with -/
  | missing
  deriving DecidableEq, Repr

/-- The wording of a target's fault. -/
def TargetFault.reason : TargetFault → String
  | belowOne target => "per-die target must be at least 1 (got " ++ target.text ++ ")"
  | missing => "a difficulty was given but no target to compare against"

/-- Why a configuration cannot be used. -/
inductive ConfigError where
  | invalidTarget (mechanic : Mechanic) (fault : TargetFault)
  | invalidThreshold (threshold : UInt32)
  | invalidDifficulty (difficulty : Amount)
  deriving DecidableEq, Repr

/-- The wording of a configuration error. -/
def ConfigError.message : ConfigError → String
  | invalidTarget mechanic fault =>
    "invalid target for " ++ mechanic.name ++ " mechanic: " ++ fault.reason
  | invalidThreshold threshold =>
    "explosion threshold must be at least 1 (got " ++ Decimal.text threshold.toNat ++ ")"
  | invalidDifficulty difficulty =>
    "dice pool difficulty cannot be negative (got " ++ difficulty.text ++ ")"

/-- How a game system resolves its rolls. -/
structure Config where
  /-- the strategy -/
  mechanic : Mechanic := .rollAndSum
  /-- the formula rolled when a request names none -/
  baseFormula : String := "1d20"
  /-- the comparison with the target -/
  criteria : Criteria := .greaterEqual
  /-- the total to meet, or what each die of a pool has to meet -/
  target : Option Amount := none
  /-- whether dice explode -/
  exploding : Bool := false
  /-- the roll from which a die explodes; its highest face when none is given -/
  explodeThreshold : Option UInt32 := none
  /-- how many successes a pool needs -/
  difficulty : Option Amount := none
  /-- what to do with dice out of range -/
  bounds : BoundsPolicy := .reject
  /-- the most explosions of one die -/
  explosionCap : UInt32 := defaultExplosionCap
  deriving DecidableEq, Repr

namespace Config

/-- A configuration that sums `formula`. -/
def sum (formula : String) : Config :=
  { baseFormula := formula }

/-- A dice pool that counts the dice of `formula` at or above `target`. -/
def pool (formula : String) (target : Amount) : Config :=
  { mechanic := .dicePool, baseFormula := formula, target := some target }

/-- The configuration with exploding dice and the given threshold. -/
def withExplosion (config : Config) (threshold : Option UInt32) : Config :=
  { config with exploding := true, explodeThreshold := threshold }

/-- The roll from which a die of `sides` sides explodes: never above its highest face. -/
def thresholdFor (config : Config) (sides : UInt32) : UInt32 :=
  match config.explodeThreshold with
  | some threshold => if threshold ≤ sides then threshold else sides
  | none => sides

/-- What a die of a pool has to meet. -/
def poolTarget (config : Config) : Amount :=
  config.target.getD defaultPoolTarget

/-- Refuses a pool whose target is below one or whose difficulty is negative. -/
def validatePool (config : Config) : Except ConfigError Unit :=
  if config.poolTarget < 1 then
    .error (.invalidTarget config.mechanic (.belowOne config.poolTarget))
  else
    match config.difficulty with
    | some difficulty => if difficulty < 0 then .error (.invalidDifficulty difficulty) else .ok ()
    | none => .ok ()

/-- Refuses a summed roll with a difficulty and no target. -/
def validateSum (config : Config) : Except ConfigError Unit :=
  if config.difficulty.isSome ∧ config.target.isNone then
    .error (.invalidTarget config.mechanic .missing)
  else .ok ()

/-- Refuses a threshold of zero, then what the mechanic cannot judge. -/
def validate (config : Config) : Except ConfigError Unit :=
  if config.explodeThreshold = some 0 then .error (.invalidThreshold 0)
  else
    match config.mechanic with
    | .dicePool => config.validatePool
    | .rollAndSum | .custom => config.validateSum

end Config

end Tabletop
