import Tabletop.Json.Basic
import Tabletop.Text.Decimal
import Tabletop.Text.Hexadecimal

/-!
# The tokens of a JSON text

A JSON text is a sequence of marks, strings and words, with blanks between them.

* `Json.Token` — a mark, or a value without parts.
* `Json.Token.number?` — the numbers of JSON: no plus sign, no leading zero, digits on both sides of
  a point.
* `Json.Token.ofText?` — the tokens of a text; none when a string is left open, holds a control
  character or an unknown escape, or when a word is neither a number nor a literal.

The cut is made by one pass over the characters, `Json.Token.scan`.
-/

namespace Tabletop.Json

/-- A mark, or a value that has no parts. -/
inductive Token where
  | openObject
  | closeObject
  | openArray
  | closeArray
  | colon
  | comma
  | leaf (value : Json)
  deriving Repr

namespace Token

/-- The mark a character is. -/
def ofMark? : Char → Option Token
  | '\x7b' => some openObject
  | '\x7d' => some closeObject
  | '[' => some openArray
  | ']' => some closeArray
  | ':' => some colon
  | ',' => some comma
  | _ => none

/-- The blanks of JSON. -/
def isSpace (c : Char) : Bool :=
  c = ' ' || c = '\t' || c = '\n' || c = '\r'

/-! ## Numbers -/

/-- Whether a text is what follows the whole part of a number that is not whole. -/
def isFraction : List Char → Bool
  | '.' :: rest =>
    !(rest.takeWhile Char.isDigit).isEmpty && Decimal.isExponent (rest.dropWhile Char.isDigit)
  | rest => Decimal.isExponent rest

/-- A whole number as it is written: outside 64 bits, and for a negative zero, it counts as a
number that is not whole. -/
def whole (negative : Bool) (digits : List Char) : Json :=
  let n := Decimal.value digits
  if negative then
    if n = 0 ∨ UInt64.size / 2 < n then .float (String.ofList ('-' :: digits))
    else .int (-(n : Int))
  else if UInt64.size ≤ n then .float (String.ofList digits)
  else .int n

/-- Reads a number after its sign. -/
def unsigned? (negative : Bool) (cs : List Char) : Option Json :=
  let digits := cs.takeWhile Char.isDigit
  let rest := cs.dropWhile Char.isDigit
  if Decimal.isWhole digits then
    if rest = [] then some (whole negative digits)
    else if isFraction rest then
      some (.float (String.ofList (if negative then '-' :: cs else cs)))
    else none
  else none

/-- Reads a number. -/
def number? : List Char → Option Json
  | '-' :: cs => unsigned? true cs
  | cs => unsigned? false cs

/-- Reads a word: a literal or a number. -/
def word? (cs : List Char) : Option Json :=
  match String.ofList cs with
  | "null" => some .null
  | "true" => some (.bool true)
  | "false" => some (.bool false)
  | _ => number? cs

/-! ## Strings -/

/-- What a string is made of: characters, and units of 16 bits given by four hexadecimal digits. -/
inductive Atom where
  | char (c : Char)
  | unit (u : Nat)
  deriving Repr

/-- The character of two paired surrogates. -/
def pairedChar (high low : Nat) : Char :=
  Char.ofNat (0x10000 + (high - 0xD800) * 0x400 + (low - 0xDC00))

/-- The characters that atoms stand for; none when a surrogate is not paired. -/
def charsOfAtoms? : List Atom → Option (List Char)
  | [] => some []
  | .char c :: rest => (charsOfAtoms? rest).map (c :: ·)
  | [.unit u] => if 0xD800 ≤ u ∧ u ≤ 0xDFFF then none else some [Char.ofNat u]
  | .unit u :: .char c :: rest =>
    if 0xD800 ≤ u ∧ u ≤ 0xDFFF then none
    else (charsOfAtoms? rest).map (Char.ofNat u :: c :: ·)
  | .unit u :: .unit v :: rest =>
    if u < 0xD800 ∨ 0xDFFF < u then (charsOfAtoms? (.unit v :: rest)).map (Char.ofNat u :: ·)
    else if u ≤ 0xDBFF ∧ 0xDC00 ≤ v ∧ v ≤ 0xDFFF then
      (charsOfAtoms? rest).map (pairedChar u v :: ·)
    else none

/-- The string of atoms. -/
def stringOfAtoms (atoms : List Atom) : Json :=
  match charsOfAtoms? atoms with
  | some cs => .str (String.ofList cs)
  | none => .unpaired

/-- The character that stands for itself or for another after a backslash. -/
def escaped? : Char → Option Char
  | '"' => some '"'
  | '\\' => some '\\'
  | '/' => some '/'
  | 'b' => some '\x08'
  | 'f' => some '\x0c'
  | 'n' => some '\n'
  | 'r' => some '\r'
  | 't' => some '\t'
  | _ => none

/-! ## The pass over a text -/

/-- Where the pass stands; what has been seen of a word or a string is kept last first. -/
inductive Mode where
  | between
  | word (seen : List Char)
  | string (seen : List Atom)
  | escape (seen : List Atom)
  /-- inside a four-digit escape: how many digits are to come, and the value of those seen -/
  | code (seen : List Atom) (left value : Nat)

/-- What a character between tokens does: the tokens so far, and where the pass stands then. -/
def enter (done : List Token) (c : Char) : List Token × Mode :=
  match ofMark? c with
  | some mark => (mark :: done, .between)
  | none =>
    if isSpace c then (done, .between)
    else if c = '"' then (done, .string [])
    else (done, .word [c])

/-- One character of a text: the tokens so far, last first, and where the pass stands then. -/
def step (done : List Token) (mode : Mode) (c : Char) : Option (List Token × Mode) :=
  match mode with
  | .between => some (enter done c)
  | .word seen =>
    if (ofMark? c).isSome || isSpace c || c = '"' then
      (word? seen.reverse).map fun value => enter (.leaf value :: done) c
    else some (done, .word (c :: seen))
  | .string seen =>
    if c = '"' then some (.leaf (stringOfAtoms seen.reverse) :: done, .between)
    else if c = '\\' then some (done, .escape seen)
    else if c.toNat < 0x20 then none
    else some (done, .string (.char c :: seen))
  | .escape seen =>
    if c = 'u' then some (done, .code seen 3 0)
    else (escaped? c).map fun d => (done, .string (.char d :: seen))
  | .code seen left value =>
    (Hexadecimal.value? c).map fun digit =>
      match left with
      | 0 => (done, .string (.unit (value * 16 + digit) :: seen))
      | left + 1 => (done, .code seen left (value * 16 + digit))

/-- The tokens of the rest of a text, after those so far. -/
def scan (done : List Token) (mode : Mode) : List Char → Option (List Token)
  | [] =>
    match mode with
    | .between => some done.reverse
    | .word seen => (word? seen.reverse).map fun value => (Token.leaf value :: done).reverse
    | _ => none
  | c :: cs =>
    match step done mode c with
    | some (done, mode) => scan done mode cs
    | none => none

/-- The tokens of a text. -/
def ofText? (cs : List Char) : Option (List Token) :=
  scan [] .between cs

end Token

end Tabletop.Json
