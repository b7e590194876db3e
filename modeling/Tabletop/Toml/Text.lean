import Tabletop.Text.Quoted

/-!
# The text of a TOML file

What ends a line, what may stand between lines, and strings.

* `Toml.lineEnd?` — the rest of a line when it holds nothing but a comment.
* `Toml.skipLines` — a text without the gaps, comments and ends of lines it starts with.
* `Toml.string?` — reads a string: basic with escapes or literal without, on one line between single
  quotes or on several between three.
-/

namespace Tabletop.Toml

/-! ## Lines -/

/-- The space and the tab, which may stand between the parts of a line. -/
def isGap (c : Char) : Bool :=
  c = ' ' || c = '\t'

/-- A text without the gap it starts with. -/
def skipGap (cs : List Char) : List Char :=
  cs.dropWhile isGap

/-- Reads the end of a line: a line feed, which may follow a carriage return, or the end of the
text. -/
def newLine? : List Char → Option (List Char)
  | [] => some []
  | '\n' :: rest => some rest
  | '\r' :: '\n' :: rest => some rest
  | _ => none

/-- Reads a line that holds nothing but a comment; what is left are the lines behind it. -/
def lineEnd? (cs : List Char) : Option (List Char) :=
  match skipGap cs with
  | '#' :: rest => newLine? (rest.dropWhile Text.isInline)
  | rest => newLine? rest

/-- A text without the gaps, comments and ends of lines it starts with; `commented` says that it
starts inside a comment. -/
def skipLines (commented : Bool) : List Char → List Char
  | [] => []
  | '\n' :: rest => skipLines false rest
  | '\r' :: '\n' :: rest => skipLines false rest
  | c :: rest =>
    if commented then if Text.isInline c then skipLines true rest else c :: rest
    else if isGap c then skipLines false rest
    else if c = '#' then skipLines true rest
    else c :: rest

/-! ## Strings -/

/-- Reads a literal string after its opening quote. -/
def literal? (cs : List Char) : Option (List Char × List Char) :=
  let body := cs.takeWhile (· != '\'')
  match cs.dropWhile (· != '\'') with
  | _ :: rest => if body.all Text.isInline then some (body, rest) else none
  | [] => none

/-- Cuts a text at three quotes; up to two more quotes right behind them count to what stands before
them. With `escapes`, a quote behind a backslash does not count. -/
def longBody? (quote : Char) (escapes : Bool) : List Char → Option (List Char × List Char)
  | [] => none
  | c :: rest =>
    if c = quote ∧ rest.take 2 = [quote, quote] then
      let behind := rest.drop 2
      let more := (behind.takeWhile (· == quote)).take 2
      some (more, behind.drop more.length)
    else if escapes ∧ c = '\\' then
      match rest with
      | [] => none
      | d :: rest => (longBody? quote escapes rest).map fun (body, rest) => (c :: d :: body, rest)
    else (longBody? quote escapes rest).map fun (body, rest) => (c :: body, rest)

/-- A text with a line feed alone at the end of every line. -/
def plainLines : List Char → List Char
  | [] => []
  | '\r' :: '\n' :: rest => '\n' :: plainLines rest
  | c :: rest => c :: plainLines rest

/-- The text of a string over several lines; the end of its first line does not count if nothing
stands before it. -/
def dropFirstEnd (cs : List Char) : List Char :=
  match plainLines cs with
  | '\n' :: rest => rest
  | rest => rest

/-- Joins lines that end with a backslash to the next text, which may begin some lines further on;
`joining` says that its beginning is still being looked for. -/
def joinLines (joining : Bool) : List Char → List Char
  | [] => []
  | c :: rest =>
    if c = '\\' then
      if (skipGap rest).head? = some '\n' then joinLines true rest
      else
        match rest with
        | [] => [c]
        | d :: rest => c :: d :: joinLines false rest
    else if joining ∧ (isGap c ∨ c = '\n') then joinLines true rest
    else c :: joinLines false rest

/-- The characters that may stand for themselves in a string over several lines. -/
def isInLines (c : Char) : Bool :=
  c = '\n' || Text.isInline c

/-- Reads a basic string over several lines after its opening quotes. -/
def longBasic? (cs : List Char) : Option (List Char × List Char) := do
  let (body, rest) ← longBody? '"' true cs
  return (← Text.unescape? isInLines (joinLines false (dropFirstEnd body)), rest)

/-- Reads a literal string over several lines after its opening quotes. -/
def longLiteral? (cs : List Char) : Option (List Char × List Char) := do
  let (body, rest) ← longBody? '\'' false cs
  let text := dropFirstEnd body
  if text.all isInLines then return (text, rest) else none

/-- Reads a string. -/
def string? (cs : List Char) : Option (String × List Char) :=
  (chars? cs).map fun (text, rest) => (String.ofList text, rest)
where
  /-- the characters of the string, chosen by the quotes it opens with -/
  chars? : List Char → Option (List Char × List Char)
    | '"' :: '"' :: '"' :: rest => longBasic? rest
    | '"' :: rest => Text.quoted? rest
    | '\'' :: '\'' :: '\'' :: rest => longLiteral? rest
    | '\'' :: rest => literal? rest
    | _ => none

end Tabletop.Toml
