import Tabletop.Storage.Config

/-!
# Settings

What the program is set up with: a mechanic configuration, a seed, and a filter for its log.
-/

namespace Tabletop

/-- The settings of the program. -/
structure Settings where
  /-- how rolls are resolved -/
  mechanic : Config := {}
  /-- the seed of the dice; fresh dice when there is none -/
  seed : Option UInt64 := none
  /-- which messages are logged -/
  logFilter : String := "rollcore=info"
  deriving DecidableEq, Repr

open Json

/-- Every field of the settings may be absent. -/
instance : JsonForm Settings where
  write s := .obj [
    ("mechanic", of s.mechanic),
    ("seed", of s.seed),
    ("log_filter", of s.logFilter)]
  read? j := do
    let [mechanic, seed, logFilter] ← j.record? ["mechanic", "seed", "log_filter"] true | none
    let preset : Settings := {}
    return {
      mechanic := ← defaulting preset.mechanic mechanic
      seed := ← defaulting preset.seed seed
      logFilter := ← defaulting preset.logFilter logFilter }

end Tabletop
