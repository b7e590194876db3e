import Tabletop.Fields
import Tabletop.Json.Basic

/-!
# The tables of TOML

A file fills a tree of tables. A table remembers how it came to be, because that decides who may
still add to it.

* `Toml.Origin` — how a table came to be.
* `Toml.Node`, `Toml.Entries` — what stands under a key, and the keys of a table.
* `Toml.Entries.alter?` — changes the table at the end of a path.
* `Toml.Entries.assign?` — sets a dotted key. The tables on its way are new or made by dotted keys,
  or were only passed by headers; the last of them has to be made by a dotted key.
* `Toml.Entries.open?` — opens a table. It is new, or was only passed so far.
* `Toml.Entries.append?` — opens a new table behind those of an array.
* `Toml.Entries.toJson` — the finished tables.
-/

namespace Tabletop.Toml

/-- How a table came to be. -/
inductive Origin where
  /-- a header named it, or it is the outermost one -/
  | opened
  /-- it lies on the way of a header -/
  | passed
  /-- it lies on the way of a dotted key -/
  | dotted
  deriving DecidableEq, Repr

/-- What stands under a key. -/
inductive Node where
  | value (value : Json)
  | table (origin : Origin) (entries : List (String × Node))
  /-- an array of tables, the last of which may still grow -/
  | tables (finished : List Json) (last : List (String × Node))
  deriving Repr

/-- The keys of a table with what stands under them. -/
abbrev Entries := List (String × Node)

mutual

/-- A finished node. -/
def Node.toJson : Node → Json
  | .value value => value
  | .table _ entries => .obj (fieldsOf entries)
  | .tables finished last => .arr (finished ++ [.obj (fieldsOf last)])

/-- The fields of a finished table. -/
def fieldsOf : List (String × Node) → List (String × Json)
  | [] => []
  | (name, node) :: rest => (name, node.toJson) :: fieldsOf rest

end

namespace Entries

/-- A finished table. -/
def toJson (entries : Entries) : Json :=
  .obj (fieldsOf entries)

/-- Changes the table at the end of a path, where `change` is given its origin and its entries.
Missing tables are `made`; in an array of tables the path goes on in the last. There is no way
through a value, and none for a dotted key through a table that a header opened. -/
def alter? (made : Origin) (change : Origin → Entries → Option Entries) :
    List String → Origin → Entries → Option Entries
  | [], origin, entries => change origin entries
  | name :: path, _, entries =>
    match Fields.get? name entries with
    | none => do
      return Fields.set name (.table made (← alter? made change path made [])) entries
    | some (.value _) => none
    | some (.table origin inner) => do
      if made = .dotted ∧ origin = .opened then none
      return Fields.set name (.table origin (← alter? made change path origin inner)) entries
    | some (.tables finished last) => do
      return Fields.set name (.tables finished (← alter? made change path .opened last)) entries

/-- Puts a new node under a key; none when the key stands already. -/
def insert? (name : String) (node : Node) (entries : Entries) : Option Entries :=
  match Fields.get? name entries with
  | none => some (Fields.set name node entries)
  | some _ => none

/-- Sets the key `name` at the end of the dotted key `path` in an opened table. -/
def assign? (path : List String) (name : String) (value : Json) (entries : Entries) :
    Option Entries :=
  alter? .dotted
    (fun origin inner =>
      if path = [] ∨ origin = .dotted then insert? name (.value value) inner else none)
    path .opened entries

/-- Opens the table `name` at the end of a path. -/
def open? (path : List String) (name : String) (entries : Entries) : Option Entries :=
  alter? .passed
    (fun _ inner =>
      match Fields.get? name inner with
      | none => some (Fields.set name (.table .opened []) inner)
      | some (.table .passed content) => some (Fields.set name (.table .opened content) inner)
      | some _ => none)
    path .opened entries

/-- Opens a new table behind those of the array `name` at the end of a path. -/
def append? (path : List String) (name : String) (entries : Entries) : Option Entries :=
  alter? .passed
    (fun _ inner =>
      match Fields.get? name inner with
      | none => some (Fields.set name (.tables [] []) inner)
      | some (.tables finished last) =>
        some (Fields.set name (.tables (finished ++ [toJson last]) []) inner)
      | some _ => none)
    path .opened entries

/-- A path that goes on is followed part by part. -/
theorem alter?_append (made : Origin) (change : Origin → Entries → Option Entries)
    (p q : List String) (origin : Origin) (entries : Entries) :
    alter? made change (p ++ q) origin entries =
      alter? made (fun o inner => alter? made change q o inner) p origin entries := by
  induction p generalizing origin entries with
  | nil => rfl
  | cons name path ih => simp only [List.cons_append, alter?, ih]

/-- A key is set once: where it stands already it cannot be set. -/
theorem assign?_nil_eq_none {name : String} {node : Node} {entries : Entries}
    (h : Fields.get? name entries = some node) (value : Json) :
    assign? [] name value entries = none := by
  simp [assign?, alter?, insert?, h]

end Entries

end Tabletop.Toml
