import Tabletop.Json.Basic
import Tabletop.Text.Decimal
import Tabletop.Text.Hexadecimal

/-!
# Writing a JSON text

* `Json.compact` — a value without blanks.
* `Json.pretty` — a value with one field or item a line, each level two spaces further in; empty
  arrays and objects stay on their line.

A string is written with short escapes where JSON has them, other control characters as four
hexadecimal digits, and every other character as itself.
-/

namespace Tabletop.Json

/-- A character inside a string. -/
def charText (c : Char) : List Char :=
  match c with
  | '"' => ['\\', '"']
  | '\\' => ['\\', '\\']
  | '\x08' => ['\\', 'b']
  | '\x0c' => ['\\', 'f']
  | '\n' => ['\\', 'n']
  | '\r' => ['\\', 'r']
  | '\t' => ['\\', 't']
  | c =>
    if c.toNat < 0x20 then
      ['\\', 'u', '0', '0', Hexadecimal.digit (c.toNat / 16), Hexadecimal.digit (c.toNat % 16)]
    else [c]

/-- A string in its quotes. -/
def quoted (s : String) : List Char :=
  '"' :: s.toList.flatMap charText ++ ['"']

/-- A value that has no parts. The string that names no text is written as a lone surrogate. -/
def leafText : Json → List Char
  | .null => "null".toList
  | .bool true => "true".toList
  | .bool false => "false".toList
  | .int value => Decimal.integer value
  | .float text => text.toList
  | .str text => quoted text
  | .letter c => quoted (String.ofList [c])
  | .unpaired => "\"\\ud800\"".toList
  | .arr _ => "[]".toList
  | .obj _ => "\x7b\x7d".toList

mutual

/-- A value without blanks. -/
def compactText : Json → List Char
  | .arr items => '[' :: compactItems items
  | .obj fields => '\x7b' :: compactFields fields
  | value => leafText value

/-- The items of an array up to its closing bracket. -/
def compactItems : List Json → List Char
  | [] => [']']
  | [item] => compactText item ++ [']']
  | item :: rest => compactText item ++ ',' :: compactItems rest

/-- The fields of an object up to its closing brace. -/
def compactFields : List (String × Json) → List Char
  | [] => ['\x7d']
  | [(name, value)] => quoted name ++ ':' :: compactText value ++ ['\x7d']
  | (name, value) :: rest =>
    quoted name ++ ':' :: compactText value ++ ',' :: compactFields rest

end

/-- A value without blanks. -/
def compact (value : Json) : String :=
  String.ofList (compactText value)

/-- A new line at a level. -/
def newLine (level : Nat) : List Char :=
  '\n' :: List.replicate (2 * level) ' '

mutual

/-- A value over several lines; its first line is already at `level`. -/
def prettyText (level : Nat) : Json → List Char
  | .arr (item :: rest) => '[' :: prettyItems level (item :: rest)
  | .obj (field :: rest) => '\x7b' :: prettyFields level (field :: rest)
  | value => leafText value

/-- Items on lines of their own, and the closing bracket. -/
def prettyItems (level : Nat) : List Json → List Char
  | [] => newLine level ++ [']']
  | [item] => newLine (level + 1) ++ prettyText (level + 1) item ++ newLine level ++ [']']
  | item :: rest =>
    newLine (level + 1) ++ prettyText (level + 1) item ++ ',' :: prettyItems level rest

/-- Fields on lines of their own, and the closing brace. -/
def prettyFields (level : Nat) : List (String × Json) → List Char
  | [] => newLine level ++ ['\x7d']
  | [(name, value)] =>
    newLine (level + 1) ++ quoted name ++ ": ".toList ++ prettyText (level + 1) value ++
      newLine level ++ ['\x7d']
  | (name, value) :: rest =>
    newLine (level + 1) ++ quoted name ++ ": ".toList ++ prettyText (level + 1) value ++
      ',' :: prettyFields level rest

end

/-- A value over several lines. -/
def pretty (value : Json) : String :=
  String.ofList (prettyText 0 value)

end Tabletop.Json
