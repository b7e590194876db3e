import Tabletop.Settings.Layer
import Tabletop.Settings.Value

/-!
# Variables

Variables of the environment whose names start with `ROLLCORE_` set keys.

* `Variable.path` — the path of the key a variable sets: the rest of its name in lower case, cut at
  double underscores and at points.
* `Environment.layer` — the layer of an environment; a later variable stands over earlier ones.
-/

namespace Tabletop

/-- The variables of the environment: names and texts. -/
abbrev Environment := List (String × String)

namespace Variable

/-- What the names of the variables start with, in lower case. -/
def namePrefix : List Char :=
  "rollcore_".toList

/-- Cuts a name at double underscores and at points. -/
def cut : List Char → List (List Char)
  | [] => [[]]
  | '_' :: '_' :: rest => [] :: cut rest
  | '.' :: rest => [] :: cut rest
  | c :: rest => (cut rest).modifyHead (c :: ·)

/-- The path of the key that a variable sets; empty for a variable that sets none, because its name
starts otherwise or a part of the path is empty. Blanks around the name do not count, nor do blanks
around what follows its start. -/
def path (name : String) : List String :=
  let cs := (Text.trim name.toList).map Char.toLower
  if namePrefix.isPrefixOf cs then
    let parts := cut (Text.trim (cs.drop namePrefix.length))
    if parts.contains [] then [] else parts.map String.ofList
  else []

/-- The layer of one variable. -/
def layer (name text : String) : Json :=
  match path name with
  | [] => .obj []
  | path => Json.nested path (value text)

end Variable

/-- The layer of an environment. -/
def Environment.layer (environment : Environment) : Json :=
  (environment.map fun (name, text) => Variable.layer name text).foldl Json.overlay (.obj [])

end Tabletop
