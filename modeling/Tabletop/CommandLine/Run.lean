import Tabletop.CommandLine.Arguments
import Tabletop.Json.Writer
import Tabletop.Settings.Load
import Tabletop.Storage.Outcome

/-!
# Running the program

What the program prints, and the status it ends with.

* `CommandLine.Printed` — the texts for the two streams and the status.
* `CommandLine.effective` — the mechanic of the settings with the options over it.
* `CommandLine.run` — the whole program as a function of its arguments, its environment, the files
  it can read, a seed for when none is given, and the dice that a seed sets up.

The settings are loaded, and their mechanic is checked, before the options are laid over it; what
the options make of it is checked again when the request is resolved.

The log is left out. It goes to the errors as well, but nothing else that is printed depends on it,
nor does the status: the filter in the settings and the option for its form say only what is logged,
and how.
-/

namespace Tabletop.CommandLine

/-- What a run of the program leaves behind, apart from its log. -/
structure Printed where
  /-- zero on success, one when nothing could be rolled, two for mistaken arguments -/
  status : UInt32
  output : String
  /-- warnings, or why the run failed; without the lines of the log -/
  errors : String
  deriving DecidableEq, Repr

/-- The lines of the help. -/
def helpLines : List String := [
  "Roll dice formulas",
  "",
  "Usage: rollcore [OPTIONS] [FORMULA]",
  "",
  "Arguments:",
  "  [FORMULA]  Formula to roll, e.g. 2d6+3 (defaults to the configured base formula)",
  "",
  "Options:",
  "  -m, --mod <NAME=VALUE>         Named modifier, " ++
    "NAME=VALUE with an integer or dice VALUE (repeatable)",
  "  -c, --config <CONFIG>          TOML settings file",
  "      --mechanic <MECHANIC>      Resolution mechanic: sum, pool or custom",
  "      --criteria <CRITERIA>      Comparison against the target: >=, <= or ==",
  "  -t, --target <TARGET>          Total to beat, or per-die target for pools",
  "  -d, --difficulty <DIFFICULTY>  Successes a dice pool needs",
  "  -x, --explode                  Enable exploding dice",
  "      --threshold <THRESHOLD>    Natural roll that triggers an explosion (default: die maximum)",
  "      --seed <SEED>              RNG seed for reproducible rolls",
  "      --json                     Print the full outcome as JSON",
  "      --log-json                 Emit logs as JSON",
  "  -h, --help                     Print help",
  "  -V, --version                  Print version"]

/-- Texts as lines. -/
def unlines (lines : List String) : String :=
  String.join (lines.map fun line => line ++ "\n")

/-- The text of the help. -/
def helpText : String :=
  unlines helpLines

/-- The text of the version. -/
def versionText : String :=
  "rollcore 0.1.0\n"

/-- What is printed about mistaken arguments. -/
def usageText (error : UsageError) : String :=
  unlines ["error: " ++ error.message, "", "Usage: rollcore [OPTIONS] [FORMULA]"]

/-- A run that ends with an error. -/
def failure (message : String) : Printed :=
  ⟨1, "", "Error: " ++ message ++ "\n"⟩

/-- The mechanic of the settings with the options over it. A threshold lets dice explode. -/
def effective (config : Config) (a : Arguments) : Config :=
  { config with
    mechanic := a.mechanic.getD config.mechanic
    criteria := a.criteria.getD config.criteria
    exploding := config.exploding || a.explode || a.threshold.isSome
    explodeThreshold := a.threshold.or config.explodeThreshold }

/-- The request that arguments make. -/
def request (a : Arguments) : Request where
  formula := a.formula
  modifiers := a.modifiers
  target := a.target
  difficulty := a.difficulty

/-- The settings file that arguments name. -/
def settingsFile (files : String → Option String) (a : Arguments) : SettingsFile :=
  match a.config with
  | none => .unused
  | some name =>
    match files name with
    | some contents => .text contents
    | none => .missing name

/-- How an outcome is printed: its description, with the warnings among the errors; or as JSON. -/
def report (a : Arguments) (outcome : Outcome) : Printed :=
  if a.json then ⟨0, (Json.of outcome).pretty ++ "\n", ""⟩
  else
    ⟨0, outcome.description ++ "\n",
      unlines (outcome.warnings.map fun warning => "warning: " ++ warning.message)⟩

/-- The seed of the dice: that of the arguments, or else of the settings, or else a fresh one. -/
def seed (settings : Settings) (a : Arguments) (fresh : UInt64) : UInt64 :=
  (a.seed.or settings.seed).getD fresh

/-- Rolls what arguments ask for, under loaded settings. -/
def rollWith (dice : SeededDice) (settings : Settings) (a : Arguments) (fresh : UInt64) : Printed :=
  let state := dice.seeded (seed settings a fresh)
  match (resolve dice.source (effective settings.mechanic a) (request a) state).1 with
  | .ok outcome => report a outcome
  | .error e => failure e.message

/-- Runs the program, with the dice of the generator unless others are given. -/
def run (files : String → Option String) (environment : Environment) (fresh : UInt64)
    (arguments : List String) (dice : SeededDice := Generator.dice) : Printed :=
  match Action.ofArguments arguments with
  | .error e => ⟨2, "", usageText e⟩
  | .ok .help => ⟨0, helpText, ""⟩
  | .ok .version => ⟨0, versionText, ""⟩
  | .ok (.roll a) =>
    match Settings.load (settingsFile files a) environment with
    | .error e => failure e.message
    | .ok settings => rollWith dice settings a fresh

end Tabletop.CommandLine
