import Tabletop.Description

/-!
# Resolving a request

A `Request` asks for one roll; `resolve` answers it under a configuration, with dice from a source.

* `Config.overriddenBy` — the configuration with the request's target and difficulty over it.
* `Outcome` — everything a caller needs to report the roll.
* `resolve` — validates the configuration, reads the formula, combines it with the modifiers, rolls
  it, judges it and describes it. The state of the source after the roll comes with the answer,
  also when the answer is an error.
-/

namespace Tabletop

/-- A request for one roll. -/
structure Request where
  /-- the formula to roll; the configured one when none is given -/
  formula : Option String := none
  /-- the modifiers, in the order of the caller -/
  modifiers : List Modifier := []
  /-- replaces the configured target -/
  target : Option Amount := none
  /-- replaces the configured difficulty -/
  difficulty : Option Amount := none
  deriving DecidableEq, Repr

/-- The outcome of a roll. -/
structure Outcome where
  /-- the text of the combined formula -/
  formula : String
  /-- the sum, or the number of successes of a pool -/
  total : Amount
  /-- the verdict, where there was something to compare with -/
  success : Option Bool
  /-- every term with what it rolled -/
  rolledTerms : List RolledTerm
  /-- the line that breaks the roll down -/
  description : String
  /-- how many added base dice showed their highest face -/
  criticals : UInt32
  /-- how many added base dice showed a one, their highest face apart -/
  fumbles : UInt32
  /-- what is to be reported beside the outcome -/
  warnings : List Warning
  deriving DecidableEq, Repr

namespace Config

/-- The configuration with the request's target and difficulty over it. -/
def overriddenBy (config : Config) (request : Request) : Config :=
  { config with
    target := request.target.or config.target
    difficulty := request.difficulty.or config.difficulty }

/-- When dice explode under the configuration. -/
def explosions (config : Config) : Explosions where
  threshold? sides := if config.exploding then some (config.thresholdFor sides) else none
  cap := config.explosionCap

end Config

/-- The text of the formula that a request rolls. -/
def Request.formulaText (request : Request) (config : Config) : String :=
  request.formula.getD config.baseFormula

/-! ## Summary of a roll -/

/-- The natural rolls that count towards criticals and fumbles: the dice of added base terms, each
with its number of sides. -/
def baseDice (rolled : List RolledTerm) : List (UInt32 × RolledDie) :=
  (rolled.filter fun t => t.term.origin = .base ∧ t.term.sign = .plus).flatMap fun t =>
    match t.sides? with
    | some sides => t.dice.map fun die => (sides, die)
    | none => []

/-- How many added base dice showed their highest face. -/
def criticalCount (rolled : List RolledTerm) : UInt32 :=
  .ofNat ((baseDice rolled).countP fun (sides, die) => die.isNaturalMax sides)

/-- How many added base dice showed a one that is not their highest face. -/
def fumbleCount (rolled : List RolledTerm) : UInt32 :=
  .ofNat ((baseDice rolled).countP fun (sides, die) =>
    !die.isNaturalMax sides && die.isNaturalMin)

/-- The sizes of which some die was capped, largest first. -/
def cappedSizes (rolled : List RolledTerm) : List UInt32 :=
  ranked (fun a b => decide (b < a))
    ((rolled.filter fun t => t.dice.any RolledDie.capped).filterMap RolledTerm.sides?)

/-- One warning for each size of which some die was capped. -/
def capWarnings (cap : UInt32) (rolled : List RolledTerm) : List Warning :=
  (cappedSizes rolled).map fun sides => .explosionCapExceeded sides cap

/-! ## Resolving -/

/-- What is rolled for a request under a configuration: the configuration with the overrides and the
combined formula, or the error found before any die is rolled. -/
def prepare (config : Config) (request : Request) : Except RollError (Config × Formula) :=
  let config := config.overriddenBy request
  match config.validate with
  | .error e => .error (.config e)
  | .ok () =>
    match Formula.readWith config.bounds (request.formulaText config) with
    | .error e => .error (.formula e)
    | .ok base => .ok (config, base.combineWith config.bounds request.modifiers)

/-- The outcome of rolled terms. -/
def Outcome.ofRolled (config : Config) (request : Request) (combined : Formula)
    (rolled : List RolledTerm) : Except RollError Outcome := do
  let evaluation ← Evaluation.of config rolled 0
  return {
    formula := combined.text
    total := evaluation.total
    success := evaluation.success
    rolledTerms := rolled
    description := describe rolled evaluation (modifierDescriptions request.modifiers rolled)
    criticals := criticalCount rolled
    fumbles := fumbleCount rolled
    warnings := Modifier.inertWarnings config.bounds request.modifiers ++
      capWarnings config.explosionCap rolled }

/-- Resolves a request: the outcome or the error, and the state of the source afterwards. -/
def resolve {σ : Type} (source : DieSource σ) (config : Config) (request : Request) (s : σ) :
    Except RollError Outcome × σ :=
  match prepare config request with
  | .error e => (.error e, s)
  | .ok (config, combined) =>
    let (rolled, s) := combined.roll source config.explosions s
    (Outcome.ofRolled config request combined rolled, s)

end Tabletop
