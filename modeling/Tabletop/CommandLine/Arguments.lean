import Tabletop.Dice.Source
import Tabletop.Outcome

/-!
# Arguments

What the arguments of the program ask for.

* `CommandLine.Switch` — the options, with their long and short names.
* `CommandLine.Arguments` — the formula and the values of the options.
* `CommandLine.Action.ofArguments` — reads the arguments in order. The first mistake, or the first
  request for help or for the version, decides.

A value follows its option as the next argument or behind an equals sign; behind a short name it
may also follow at once, and short names without a value may be joined. Two dashes end the options.
-/

namespace Tabletop.CommandLine

/-- The options of the program. -/
inductive Switch where
  | modifier
  | config
  | mechanic
  | criteria
  | target
  | difficulty
  | explode
  | threshold
  | seed
  | json
  | logJson
  | help
  | version
  deriving DecidableEq, Repr

namespace Switch

/-- The long name of an option. -/
def longName : Switch → String
  | modifier => "mod"
  | config => "config"
  | mechanic => "mechanic"
  | criteria => "criteria"
  | target => "target"
  | difficulty => "difficulty"
  | explode => "explode"
  | threshold => "threshold"
  | seed => "seed"
  | json => "json"
  | logJson => "log-json"
  | help => "help"
  | version => "version"

/-- The options in the order in which the help lists them. -/
def all : List Switch :=
  [modifier, config, mechanic, criteria, target, difficulty, explode, threshold, seed, json,
    logJson, help, version]

/-- The option of a long name. -/
def ofLong? (name : String) : Option Switch :=
  all.find? (·.longName == name)

/-- The option of a short name. -/
def ofShort? : Char → Option Switch
  | 'm' => some modifier
  | 'c' => some config
  | 't' => some target
  | 'd' => some difficulty
  | 'x' => some explode
  | 'h' => some help
  | 'V' => some version
  | _ => none

/-- Whether an option has a value. -/
def takesValue : Switch → Bool
  | explode | json | logJson | help | version => false
  | _ => true

/-- Whether the argument after an option is its value whatever it looks like. -/
def takesAnything : Switch → Bool
  | modifier | target => true
  | _ => false

end Switch

/-- Why the arguments cannot be understood. -/
inductive UsageError where
  | unknown (argument : String)
  | repeated (option : Switch)
  | missingValue (option : Switch)
  | needlessValue (option : Switch)
  | badValue (option : Switch) (value : String)
  | extraArgument (argument : String)
  deriving DecidableEq, Repr

/-- The wording of a usage error. -/
def UsageError.message : UsageError → String
  | unknown argument => "unexpected argument '" ++ argument ++ "'"
  | repeated option => "--" ++ option.longName ++ " is given more than once"
  | missingValue option => "--" ++ option.longName ++ " needs a value"
  | needlessValue option => "--" ++ option.longName ++ " has no value"
  | badValue option value => "'" ++ value ++ "' is no value of --" ++ option.longName
  | extraArgument argument => "unexpected argument '" ++ argument ++ "'"

/-- The formula and the options of a roll. -/
structure Arguments where
  formula : Option String := none
  modifiers : List Modifier := []
  config : Option String := none
  mechanic : Option Mechanic := none
  criteria : Option Criteria := none
  target : Option Amount := none
  difficulty : Option Amount := none
  explode : Bool := false
  threshold : Option UInt32 := none
  seed : Option UInt64 := none
  json : Bool := false
  logJson : Bool := false
  deriving DecidableEq, Repr

/-- What the program is asked to do. -/
inductive Action where
  | roll (arguments : Arguments)
  | help
  | version
  deriving DecidableEq, Repr

/-! ## Values -/

/-- Reads a threshold: an amount that fits 32 bits. -/
def threshold? (cs : List Char) : Option UInt32 :=
  (Decimal.integer? cs).bind fun n =>
    if 0 ≤ n ∧ n.toNat < UInt32.size then some (UInt32.ofNat n.toNat) else none

/-- Reads a seed: digits, with a plus or without, that fit 64 bits. -/
def seed? (cs : List Char) : Option UInt64 :=
  let digits :=
    match cs with
    | '+' :: rest => rest
    | rest => rest
  (Decimal.natural? digits).bind fun n => if n < UInt64.size then some (UInt64.ofNat n) else none

/-- Sets an option that may be given once to a value that has been read. -/
def once {α : Type} (option : Switch) (text : String) (old value : Option α) :
    Except UsageError (Option α) :=
  match old, value with
  | _, none => .error (.badValue option text)
  | some _, some _ => .error (.repeated option)
  | none, some a => .ok (some a)

namespace Arguments

/-- The arguments with the value of an option. -/
def set (a : Arguments) (option : Switch) (text : String) : Except UsageError Arguments := do
  match option with
  | .modifier =>
    match Modifier.read text with
    | .ok m => return { a with modifiers := a.modifiers ++ [m] }
    | .error _ => .error (.badValue .modifier text)
  | .config =>
    return { a with config := ← once .config text a.config (if text = "" then none else some text) }
  | .mechanic =>
    return { a with mechanic := ← once .mechanic text a.mechanic (Mechanic.ofName? text) }
  | .criteria =>
    return { a with criteria := ← once .criteria text a.criteria (Criteria.ofName? text) }
  | .target => return { a with target := ← once .target text a.target (Amount.read? text.toList) }
  | .difficulty =>
    return { a with
      difficulty := ← once .difficulty text a.difficulty (Amount.read? text.toList) }
  | .threshold =>
    return { a with threshold := ← once .threshold text a.threshold (threshold? text.toList) }
  | .seed => return { a with seed := ← once .seed text a.seed (seed? text.toList) }
  | .explode | .json | .logJson | .help | .version => .error (.needlessValue option)

/-- The arguments with an option that has no value. -/
def raise (a : Arguments) : Switch → Except UsageError Arguments
  | .explode => if a.explode then .error (.repeated .explode) else .ok { a with explode := true }
  | .json => if a.json then .error (.repeated .json) else .ok { a with json := true }
  | .logJson => if a.logJson then .error (.repeated .logJson) else .ok { a with logJson := true }
  | option => .error (.missingValue option)

/-- The arguments with one that is no option: the formula. -/
def place (a : Arguments) (text : String) : Except UsageError Arguments :=
  match a.formula with
  | none => .ok { a with formula := some text }
  | some _ => .error (.extraArgument text)

/-- The arguments with those that follow two dashes. -/
def placeAll (a : Arguments) : List String → Except UsageError Arguments
  | [] => .ok a
  | text :: rest => do placeAll (← a.place text) rest

end Arguments

/-! ## Reading -/

/-- How far reading has come: it goes on, perhaps with an option that waits for its value, or what
to do is settled. -/
inductive Progress where
  | reading (arguments : Arguments) (waiting : Option Switch)
  | settled (action : Action)

/-- Reads short names that stand together. -/
def readShort (a : Arguments) : List Char → Except UsageError Progress
  | [] => .ok (.reading a none)
  | c :: cs =>
    match Switch.ofShort? c with
    | none => .error (.unknown (String.ofList ['-', c]))
    | some .help => .ok (.settled .help)
    | some .version => .ok (.settled .version)
    | some option =>
      if option.takesValue then
        match cs with
        | [] => .ok (.reading a (some option))
        | '=' :: value => do return .reading (← a.set option (String.ofList value)) none
        | value => do return .reading (← a.set option (String.ofList value)) none
      else do readShort (← a.raise option) cs

/-- Reads a long name, with the value behind its equals sign if there is one. -/
def readLong (a : Arguments) (cs : List Char) : Except UsageError Progress :=
  let name := String.ofList (cs.takeWhile (· != '='))
  match Switch.ofLong? name, cs.dropWhile (· != '=') with
  | none, _ => .error (.unknown ("--" ++ name))
  | some option, _ :: value =>
    if option.takesValue then do return .reading (← a.set option (String.ofList value)) none
    else .error (.needlessValue option)
  | some .help, [] => .ok (.settled .help)
  | some .version, [] => .ok (.settled .version)
  | some option, [] =>
    if option.takesValue then .ok (.reading a (some option))
    else do return .reading (← a.raise option) none

/-- Whether an argument looks like an option: a dash with something behind it. -/
def looksLikeOption (text : String) : Bool :=
  match text.toList with
  | '-' :: _ :: _ => true
  | _ => false

/-- Reads one argument that is not the value of an option. -/
def readArgument (a : Arguments) (text : String) : Except UsageError Progress :=
  match text.toList with
  | '-' :: '-' :: cs => readLong a cs
  | '-' :: c :: cs => readShort a (c :: cs)
  | _ => do return .reading (← a.place text) none

/-- Reads the arguments that follow those in `a`; `waiting` is an option whose value is next. -/
def readFrom (a : Arguments) (waiting : Option Switch) :
    List String → Except UsageError Action
  | [] =>
    match waiting with
    | none => .ok (.roll a)
    | some option => .error (.missingValue option)
  | text :: rest =>
    match waiting with
    | some option =>
      if option.takesAnything || !looksLikeOption text then do
        readFrom (← a.set option text) none rest
      else .error (.missingValue option)
    | none =>
      if text = "--" then do return .roll (← a.placeAll rest)
      else
        match readArgument a text with
        | .error e => .error e
        | .ok (.settled action) => .ok action
        | .ok (.reading a waiting) => readFrom a waiting rest

/-- What a list of arguments asks for. -/
def Action.ofArguments (arguments : List String) : Except UsageError Action :=
  readFrom {} none arguments

end Tabletop.CommandLine
