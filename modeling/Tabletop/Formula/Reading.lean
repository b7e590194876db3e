import Tabletop.Formula.Basic
import Tabletop.Text.Blank
import Tabletop.Text.LowerCase

/-!
# Reading a formula

```text
formula := body (sign body)*
body    := digit* "d" digit+  |  digit+
sign    := "+" | "-"
```

Blanks are dropped and letters lower-cased first, so `2D6 + 3` and `2d6+3` are one formula.

* `Formula.accepts` — whether a text is of a formula's form: cut at its signs, it has only bodies.
* `Formula.scan` — the pieces of a text with their bodies, each the longest one from where the last
  one ended; digit runs are numbers of any length.
* `Piece.term` — the term a piece stands for, under a policy for dice out of range; a missing count
  is one, and a number too large for a word is the greatest word.
* `Formula.readWith` — the whole: `FormulaError.malformed` when the text is not of the form,
  otherwise the leftmost piece out of range decides.
-/

namespace Tabletop

/-- What to do with dice that are too many or have an unsupported size. -/
inductive BoundsPolicy where
  /-- refuse the formula -/
  | reject
  /-- take the nearest number in range -/
  | clamp
  deriving DecidableEq, Repr

/-- Fewest dice of a term. -/
def minDice : UInt32 := 1

/-- Most dice of a term. -/
def maxDice : UInt32 := 100

/-- Sides of the smallest die. -/
def minSides : UInt32 := 2

/-- Sides of the largest die. -/
def maxSides : UInt32 := 1000

/-- How a term is out of range. -/
inductive RangeFault where
  | diceCount
  | dieSides
  | constant
  deriving DecidableEq, Repr

/-- The wording of a range fault. -/
def RangeFault.reason : RangeFault → String
  | diceCount => "dice count must be between 1 and 100"
  | dieSides => "die sides must be between 2 and 1000"
  | constant => "constant is too large"

/-- Why a text is not read as a formula. -/
inductive FormulaError where
  /-- the text, without the blanks at its ends, is not of a formula's form -/
  | malformed (text : String)
  /-- a term of a well-formed text is out of range -/
  | outOfRange (term : String) (fault : RangeFault)
  deriving DecidableEq, Repr

/-- The wording of a formula error. -/
def FormulaError.message : FormulaError → String
  | malformed text => "invalid dice format: '" ++ text ++ "' (expected something like 2d6+3)"
  | outOfRange term fault => "too many dice: '" ++ term ++ "' (" ++ fault.reason ++ ")"

/-! ## Pieces -/

/-- A stretch of text between two signs, with the sign it follows. -/
structure Piece where
  /-- the sign written in front; the first piece has none -/
  lead : Option Sign
  /-- the characters up to the next sign -/
  body : List Char
  deriving DecidableEq, Repr

namespace Piece

/-- Cuts a text at its signs: the characters before the first sign, and each sign with the
characters up to the next. -/
def cut : List Char → List Char × List (Sign × List Char)
  | [] => ([], [])
  | c :: cs =>
    let (head, rest) := cut cs
    match Sign.ofSymbol? c with
    | some sign => ([], (sign, head) :: rest)
    | none => (c :: head, rest)

/-- The pieces of a text, in order. -/
def ofChars (cs : List Char) : List Piece :=
  let (head, rest) := cut cs
  ⟨none, head⟩ :: rest.map fun (sign, body) => ⟨some sign, body⟩

/-- The sign of a piece: plus when none is written. -/
def sign (p : Piece) : Sign :=
  p.lead.getD .plus

/-- The characters of a piece with the sign it follows. -/
def source (p : Piece) : List Char :=
  match p.lead with
  | some sign => sign.symbol :: p.body
  | none => p.body

theorem ofChars_ne_nil (cs : List Char) : ofChars cs ≠ [] :=
  List.cons_ne_nil _ _

theorem cut_append (cs : List Char) :
    (cut cs).1 ++ (cut cs).2.flatMap (fun p => p.1.symbol :: p.2) = cs := by
  induction cs with
  | nil => rfl
  | cons c cs ih =>
    cases h : Sign.ofSymbol? c with
    | some sign =>
      obtain rfl := Sign.ofSymbol?_eq_some_iff.mp h
      simp [cut, ih]
    | none => simp [cut, h, ih]

/-- Nothing is lost by cutting. -/
theorem flatMap_source_ofChars (cs : List Char) : (ofChars cs).flatMap source = cs := by
  have h := cut_append cs
  simpa [ofChars, source, List.flatMap_map] using h

end Piece

/-! ## Bodies -/

/-- What stands between two signs, its digit runs read as numbers of any size. -/
inductive Body where
  /-- dice, with or without a written count -/
  | dice (count : Option Nat) (sides : Nat)
  /-- a run of digits -/
  | constant (value : Nat)
  deriving DecidableEq, Repr

namespace Body

/-- Whether a text is of a body's form: digits, or digits that may be missing, a `d` and digits. -/
def accepts (cs : List Char) : Bool :=
  match cs.dropWhile Char.isDigit with
  | [] => !cs.isEmpty
  | 'd' :: sides => !sides.isEmpty && sides.all Char.isDigit
  | _ => false

/-- The dice that a text starts with, and their characters. -/
def dice? (cs : List Char) : Option (Body × List Char) :=
  let count := cs.takeWhile Char.isDigit
  match cs.dropWhile Char.isDigit with
  | 'd' :: rest =>
    let sides := rest.takeWhile Char.isDigit
    (Decimal.natural? sides).map fun n => (.dice (Decimal.natural? count) n, count ++ 'd' :: sides)
  | _ => none

/-- The digits that a text starts with. -/
def constant? (cs : List Char) : Option (Body × List Char) :=
  let digits := cs.takeWhile Char.isDigit
  (Decimal.natural? digits).map fun value => (.constant value, digits)

/-- The body that a text starts with, and its characters: dice rather than a constant. -/
def front? (cs : List Char) : Option (Body × List Char) :=
  (dice? cs).or (constant? cs)

end Body

/-- The piece that a text starts with, and its body. -/
def Piece.front? : List Char → Option (Piece × Body)
  | [] => none
  | c :: cs =>
    match Sign.ofSymbol? c with
    | some sign => (Body.front? cs).map fun (b, body) => (⟨some sign, body⟩, b)
    | none => (Body.front? (c :: cs)).map fun (b, body) => (⟨none, body⟩, b)

/-! ## Ranges -/

/-- The nearest number of the range from `low` to `high`. -/
def clampTo (low high n : UInt32) : UInt32 :=
  if n < low then low else if high < n then high else n

/-- The count and the sides of dice under a policy: refused with the first fault, or clamped. -/
def BoundsPolicy.dice (policy : BoundsPolicy) (count sides : UInt32) :
    Except RangeFault (UInt32 × UInt32) :=
  match policy with
  | .clamp => .ok (clampTo minDice maxDice count, clampTo minSides maxSides sides)
  | .reject =>
    if count < minDice ∨ maxDice < count then .error .diceCount
    else if sides < minSides ∨ maxSides < sides then .error .dieSides
    else .ok (count, sides)

/-- The term of a piece whose body has been read. A constant out of range is named with its
sign, dice out of range are named without. -/
def Piece.term (policy : BoundsPolicy) (p : Piece) : Body → Except FormulaError Term
  | .constant value =>
    match Amount.ofInt? value with
    | some v => .ok ⟨p.sign, .constant v, .base⟩
    | none => .error (.outOfRange (String.ofList p.source) .constant)
  | .dice count sides =>
    match policy.dice (.ofNatClamp (count.getD 1)) (.ofNatClamp sides) with
    | .ok (count, sides) => .ok (.dice p.sign count sides)
    | .error fault => .error (.outOfRange (String.ofList p.body) fault)

/-! ## Formulas -/

namespace Formula

/-- The form in which a text is read: without blanks, in lower case. -/
def normalize (text : String) : List Char :=
  Text.lowerCase (Text.squeeze text.toList)

/-- Whether a normalized text is of a formula's form. -/
def accepts (cs : List Char) : Bool :=
  (Piece.ofChars cs).all fun p => Body.accepts p.body

/-- The pieces of a text behind its first `skip` characters; a character that no piece starts with
is skipped too. -/
def scanFrom : Nat → List Char → List (Piece × Body)
  | _, [] => []
  | skip + 1, _ :: cs => scanFrom skip cs
  | 0, c :: cs =>
    match Piece.front? (c :: cs) with
    | some part => part :: scanFrom (part.1.source.length - 1) cs
    | none => scanFrom 0 cs

/-- The pieces of a text with their bodies, from the left. -/
def scan (cs : List Char) : List (Piece × Body) :=
  scanFrom 0 cs

/-- Reads a formula under a policy for dice out of range. -/
def readWith (policy : BoundsPolicy) (text : String) : Except FormulaError Formula :=
  if accepts (normalize text) then do
    let terms ← (scan (normalize text)).mapM fun (p, b) => p.term policy b
    return ⟨terms⟩
  else .error (.malformed (String.ofList (Text.trim text.toList)))

/-- Reads a formula, refusing dice out of range. -/
def read (text : String) : Except FormulaError Formula :=
  readWith .reject text

end Formula

end Tabletop
