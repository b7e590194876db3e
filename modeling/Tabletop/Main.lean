import Tabletop.CommandLine.Run

/-!
# The program

Reads the arguments, the environment and the settings file, and prints what `CommandLine.run` says.
-/

namespace Tabletop.Main

/-- The names of the variables that set a key. -/
def variableNames : List String :=
  ["ROLLCORE_SEED", "ROLLCORE_LOG_FILTER"] ++
    Config.fieldNames.map fun field => "ROLLCORE_MECHANIC__" ++ field.map Char.toUpper

/-- The variables that are set. -/
def environment : IO Environment := do
  let found ← variableNames.mapM fun name => do
    return (← IO.getEnv name).map fun value => (name, value)
  return found.filterMap id

/-- The text of an open file; empty for a directory, which can be opened but not read. -/
def contentsOf (handle : IO.FS.Handle) : IO (Option String) := do
  try return String.fromUTF8? (← handle.readBinToEnd) catch _ => return some ""

/-- The text of a file; none when there is no file of this name. -/
def contents (name : String) : IO (Option String) := do
  try contentsOf (← IO.FS.Handle.mk name .read) catch _ => return none

/-- The file that arguments name, with its text. -/
def namedFile (arguments : List String) : IO (Option (String × String)) := do
  match CommandLine.Action.ofArguments arguments with
  | .ok (.roll a) =>
    match a.config with
    | some name => return (← contents name).map fun text => (name, text)
    | none => return none
  | _ => return none

/-- Runs the program and prints its texts. -/
def perform (arguments : List String) : IO UInt32 := do
  let file ← namedFile arguments
  let files := fun name => (file.filter (·.1 == name)).map (·.2)
  let fresh ← IO.rand 0 (UInt64.size - 1)
  let printed :=
    CommandLine.run files (← environment) (UInt64.ofNat fresh) arguments Generator.dice
  IO.print printed.output
  IO.eprint printed.errors
  return printed.status

end Tabletop.Main

/-- The entry point of the program. -/
def main (arguments : List String) : IO UInt32 :=
  Tabletop.Main.perform arguments
