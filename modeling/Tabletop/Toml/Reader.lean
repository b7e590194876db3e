import Tabletop.Toml.Date
import Tabletop.Toml.Number
import Tabletop.Toml.Table
import Tabletop.Toml.Text

/-!
# Reading a TOML text

* `Toml.key?` — a key: parts with points between them, each bare or a string. It has at most 79
  parts.
* `Toml.value?` — a value. At most 79 arrays and tables may be nested in it.
* `Toml.Statement` — a header or an assignment.
* `Toml.Document` — the tables filled so far, and the one that assignments go to.
* `Toml.read?` — the value of a text; none for a text that is not TOML.
-/

namespace Tabletop.Toml

/-! ## Keys -/

/-- The most parts a key may have, and the most arrays and tables that may be nested. -/
def limit : Nat := 79

/-- The characters of a bare key. -/
def isKeyChar (c : Char) : Bool :=
  c.isAlphanum || c = '_' || c = '-'

/-- Reads one part of a key. -/
def keyPart? (cs : List Char) : Option (String × List Char) :=
  match cs with
  | '"' :: rest => (Text.quoted? rest).map fun (text, rest) => (String.ofList text, rest)
  | '\'' :: rest => (literal? rest).map fun (text, rest) => (String.ofList text, rest)
  | cs =>
    let part := cs.takeWhile isKeyChar
    if part = [] then none else some (String.ofList part, cs.dropWhile isKeyChar)

/-- A key: the parts before its last one, and the last. -/
structure Key where
  path : List String
  name : String
  deriving DecidableEq, Repr

/-- All parts of a key. -/
def Key.parts (key : Key) : List String :=
  key.path ++ [key.name]

/-- Reads a key of at most `parts` parts, and the gaps around them. -/
def keyOf? : Nat → List Char → Option (Key × List Char)
  | 0, _ => none
  | parts + 1, cs => do
    let (part, rest) ← keyPart? (skipGap cs)
    match skipGap rest with
    | '.' :: rest =>
      let (key, rest) ← keyOf? parts rest
      return (⟨part :: key.path, key.name⟩, rest)
    | rest => return (⟨[], part⟩, rest)

/-- Reads a key, and the gaps around its parts. -/
def key? (cs : List Char) : Option (Key × List Char) :=
  keyOf? limit cs

/-! ## Values -/

/-- The characters of numbers, dates and the two truth values. -/
def isWordChar (c : Char) : Bool :=
  c.isAlphanum || ['+', '-', '.', ':', '_'].contains c

/-- The value of a word. A date counts as an object without fields. -/
def word? (cs : List Char) : Option Json :=
  match String.ofList cs with
  | "true" => some (.bool true)
  | "false" => some (.bool false)
  | _ => if isMoment cs then some (.obj []) else number? cs

/-- Reads a value that is written as a word. A time may follow a date behind a space. -/
def plain? (cs : List Char) : Option (Json × List Char) := do
  let word := cs.takeWhile isWordChar
  let value ← word? word
  match cs.dropWhile isWordChar with
  | ' ' :: rest =>
    let next := rest.takeWhile isWordChar
    if isDate word ∧ next ≠ [] then
      if isZonedTime next then return (value, rest.dropWhile isWordChar) else none
    else return (value, rest)
  | rest => return (value, rest)

/-- The table of assignments between braces. -/
def inlineTable? (assignments : List (Key × Json)) : Option Json :=
  (assignments.foldlM assign? []).map Entries.toJson
where
  /-- the table with one more key set -/
  assign? (entries : Entries) (assignment : Key × Json) : Option Entries :=
    entries.assign? assignment.1.path assignment.1.name assignment.2

mutual

/-- Reads a value. Each call is given how many more it may make in a chain, and how many more arrays
and tables may be nested. -/
def valueOf? : Nat → Nat → List Char → Option (Json × List Char)
  | 0, _, _ => none
  | calls + 1, nesting, cs =>
    match cs, nesting with
    | '[' :: _, 0 => none
    | '[' :: rest, nesting + 1 =>
      (itemsOf? calls nesting rest).map fun (items, rest) => (.arr items, rest)
    | '\x7b' :: _, 0 => none
    | '\x7b' :: rest, nesting + 1 =>
      match skipGap rest with
      | '\x7d' :: rest => some (.obj [], rest)
      | rest => do
        let (assignments, rest) ← assignmentsOf? calls nesting rest
        return (← inlineTable? assignments, rest)
    | '"' :: _, _ => (string? cs).map fun (text, rest) => (.str text, rest)
    | '\'' :: _, _ => (string? cs).map fun (text, rest) => (.str text, rest)
    | cs, _ => plain? cs

/-- Reads the items of an array and its closing bracket; a comma may stand behind the last. -/
def itemsOf? : Nat → Nat → List Char → Option (List Json × List Char)
  | 0, _, _ => none
  | calls + 1, nesting, cs =>
    match skipLines false cs with
    | ']' :: rest => some ([], rest)
    | cs => do
      let (item, rest) ← valueOf? calls nesting cs
      match skipLines false rest with
      | ',' :: rest =>
        let (items, rest) ← itemsOf? calls nesting rest
        return (item :: items, rest)
      | ']' :: rest => return ([item], rest)
      | _ => none

/-- Reads the assignments of a table and its closing brace. -/
def assignmentsOf? : Nat → Nat → List Char → Option (List (Key × Json) × List Char)
  | 0, _, _ => none
  | calls + 1, nesting, cs => do
    let (key, rest) ← key? cs
    match rest with
    | '=' :: rest =>
      let (value, rest) ← valueOf? calls nesting (skipGap rest)
      match skipGap rest with
      | ',' :: rest =>
        let (assignments, rest) ← assignmentsOf? calls nesting rest
        return ((key, value) :: assignments, rest)
      | '\x7d' :: rest => return ([(key, value)], rest)
      | _ => none
    | _ => none

end

/-- Reads a value. Two calls in a chain read at least one character. -/
def value? (cs : List Char) : Option (Json × List Char) :=
  valueOf? (2 * cs.length + 2) limit cs

/-! ## Statements -/

/-- What a text says. -/
inductive Statement where
  /-- assignments go to this table -/
  | header (key : Key)
  /-- assignments go to a new table of this array -/
  | arrayHeader (key : Key)
  /-- a key is set -/
  | assignment (key : Key) (value : Json)
  deriving Repr

/-- Reads a statement, but not the end of its line. -/
def statement? (cs : List Char) : Option (Statement × List Char) :=
  match skipGap cs with
  | '[' :: '[' :: rest => do
    let (key, rest) ← key? rest
    match rest with
    | ']' :: ']' :: rest => return (.arrayHeader key, rest)
    | _ => none
  | '[' :: rest => do
    let (key, rest) ← key? rest
    match rest with
    | ']' :: rest => return (.header key, rest)
    | _ => none
  | rest => do
    let (key, rest) ← key? rest
    match rest with
    | '=' :: rest =>
      let (value, rest) ← value? (skipGap rest)
      return (.assignment key value, rest)
    | _ => none

/-- The statements of a text of at most `lines` lines, in order. -/
def statementsOf? : Nat → List Char → Option (List Statement)
  | _, [] => some []
  | 0, _ => none
  | lines + 1, cs =>
    match lineEnd? cs with
    | some rest => statementsOf? lines rest
    | none => do
      let (statement, rest) ← statement? cs
      return statement :: (← statementsOf? lines (← lineEnd? rest))

/-- The statements of a text. A byte order mark in front of it does not count. -/
def statements? (cs : List Char) : Option (List Statement) :=
  match cs with
  | '\ufeff' :: rest => statementsOf? rest.length rest
  | cs => statementsOf? cs.length cs

/-! ## Documents -/

/-- The tables filled so far, and the path of the one that assignments go to. -/
structure Document where
  current : List String := []
  root : Entries := []
  deriving Repr

namespace Document

/-- The document after one more statement; none when the statement contradicts those before it. -/
def add? (d : Document) : Statement → Option Document
  | .header key => do return ⟨key.parts, ← d.root.open? key.path key.name⟩
  | .arrayHeader key => do return ⟨key.parts, ← d.root.append? key.path key.name⟩
  | .assignment key value => do
    let root ← d.root.alter? .passed (fun _ entries => entries.assign? key.path key.name value)
      d.current .opened
    return { d with root := root }

/-- The document of statements. -/
def ofStatements? (statements : List Statement) : Option Document :=
  statements.foldlM add? {}

end Document

/-- Reads a TOML text. -/
def read? (text : String) : Option Json := do
  let document ← Document.ofStatements? (← statements? text.toList)
  return document.root.toJson

end Tabletop.Toml
