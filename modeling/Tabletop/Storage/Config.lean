import Tabletop.Config
import Tabletop.Storage.Formula

/-!
# JSON form of configurations

Mechanics, criteria and configurations as JSON. Mechanics and criteria have short names that are
read beside the ones written. Every field of a configuration may be absent.
-/

namespace Tabletop

open Json

instance : JsonForm Mechanic where
  write
    | .rollAndSum => .str "roll_and_sum"
    | .dicePool => .str "dice_pool"
    | .custom => .str "custom"
  read? j :=
    match j.variant? with
    | some ("roll_and_sum", payload) => bare .rollAndSum payload
    | some ("sum", payload) => bare .rollAndSum payload
    | some ("dice_pool", payload) => bare .dicePool payload
    | some ("pool", payload) => bare .dicePool payload
    | some ("custom", payload) => bare .custom payload
    | _ => none

instance : JsonForm Criteria where
  write
    | .greaterEqual => .str "greater_equal"
    | .lessEqual => .str "less_equal"
    | .equal => .str "equal"
  read? j :=
    match j.variant? with
    | some ("greater_equal", payload) => bare .greaterEqual payload
    | some (">=", payload) => bare .greaterEqual payload
    | some ("less_equal", payload) => bare .lessEqual payload
    | some ("<=", payload) => bare .lessEqual payload
    | some ("equal", payload) => bare .equal payload
    | some ("==", payload) => bare .equal payload
    | some ("=", payload) => bare .equal payload
    | _ => none

/-- The fields of a configuration, in order. -/
def Config.fieldNames : List String :=
  ["mechanic", "base_formula", "criteria", "target", "exploding", "explode_threshold",
    "difficulty", "bounds", "explosion_cap"]

instance : JsonForm Config where
  write c := .obj [
    ("mechanic", of c.mechanic),
    ("base_formula", of c.baseFormula),
    ("criteria", of c.criteria),
    ("target", of c.target),
    ("exploding", of c.exploding),
    ("explode_threshold", of c.explodeThreshold),
    ("difficulty", of c.difficulty),
    ("bounds", of c.bounds),
    ("explosion_cap", of c.explosionCap)]
  read? j := do
    let [mechanic, baseFormula, criteria, target, exploding, explodeThreshold, difficulty, bounds,
      explosionCap] ← j.record? Config.fieldNames true | none
    let preset : Config := {}
    return {
      mechanic := ← defaulting preset.mechanic mechanic
      baseFormula := ← defaulting preset.baseFormula baseFormula
      criteria := ← defaulting preset.criteria criteria
      target := ← defaulting preset.target target
      exploding := ← defaulting preset.exploding exploding
      explodeThreshold := ← defaulting preset.explodeThreshold explodeThreshold
      difficulty := ← defaulting preset.difficulty difficulty
      bounds := ← defaulting preset.bounds bounds
      explosionCap := ← defaulting preset.explosionCap explosionCap }

end Tabletop
