import Tabletop.Amount
import Tabletop.Json.Basic
import Tabletop.Text.Hexadecimal

/-!
# The numbers of TOML

* `Toml.digits?` — digits, where a single underscore may stand between two of them.
* `Toml.integer?` — a whole number: with a sign in base ten, without one in base two, eight or
  sixteen.
* `Toml.Scientific` — a number with a point or an exponent, kept exactly.
* `Toml.number?` — a number as a value. A whole number has 64 bits. A number that is not whole is
  that of a double; when it is not negative it has to be finite.
-/

namespace Tabletop.Toml

/-- Digits without the underscores between them; none when an underscore has no digit on both
sides. -/
def digitsOf? (isDigit : Char → Bool) : List Char → Option (List Char)
  | [] => none
  | [c] => if isDigit c then some [c] else none
  | c :: '_' :: rest => if isDigit c then (digitsOf? isDigit rest).map (c :: ·) else none
  | c :: rest => if isDigit c then (digitsOf? isDigit rest).map (c :: ·) else none

/-- Decimal digits without the underscores between them. -/
def digits? (cs : List Char) : Option (List Char) :=
  digitsOf? Char.isDigit cs

/-! ## Whole numbers -/

/-- Reads a whole number in base ten; no leading zeros. -/
def decimal? (cs : List Char) : Option Nat := do
  let digits ← digits? cs
  if Decimal.isWhole digits then return Decimal.value digits else none

/-- Reads a whole number in a base of at most sixteen. -/
def based? (base : Nat) (cs : List Char) : Option Nat := do
  let digits ← digitsOf? (fun c => (Hexadecimal.value? c).any (· < base)) cs
  return digits.foldl (fun n c => n * base + (Hexadecimal.value? c).getD 0) 0

/-- Reads a whole number; another base than ten is named in front of the digits. -/
def integer? (cs : List Char) : Option Int :=
  match cs with
  | '0' :: 'x' :: rest => (based? 16 rest).map Int.ofNat
  | '0' :: 'o' :: rest => (based? 8 rest).map Int.ofNat
  | '0' :: 'b' :: rest => (based? 2 rest).map Int.ofNat
  | cs =>
    let (negative, body) := Decimal.splitSign cs
    (decimal? body).map fun (n : Nat) => if negative then -(n : Int) else (n : Int)

/-! ## Numbers that are not whole -/

/-- The number whose digits are `digits`, the last of them counting ten to the power `exponent`. -/
structure Scientific where
  negative : Bool
  digits : List Char
  exponent : Int
  deriving DecidableEq, Repr

/-- Reads an exponent, or nothing. -/
def exponent? : List Char → Option Int
  | [] => some 0
  | e :: rest =>
    if e = 'e' ∨ e = 'E' then
      let (negative, body) := Decimal.splitSign rest
      (digits? body).map fun digits =>
        if negative then -(Decimal.value digits : Int) else (Decimal.value digits : Int)
    else none

namespace Scientific

/-- Reads a number that has a point or an exponent. -/
def read? (cs : List Char) : Option Scientific := do
  let inDigits := fun (c : Char) => c.isDigit || c = '_'
  let (negative, body) := Decimal.splitSign cs
  let whole ← digits? (body.takeWhile inDigits)
  if !Decimal.isWhole whole then none
  match body.dropWhile inDigits with
  | [] => none
  | '.' :: rest =>
    let fraction ← digits? (rest.takeWhile inDigits)
    let exponent ← exponent? (rest.dropWhile inDigits)
    return ⟨negative, whole ++ fraction, exponent - fraction.length⟩
  | rest => return ⟨negative, whole, ← exponent? rest⟩

/-- The least number that is infinite as a double: halfway between the greatest double and the next
power of two. -/
def infinity : Nat :=
  Nat.pow 2 1024 - Nat.pow 2 970

/-- Whether the number without its sign is infinite as a double. The bound has 309 digits, so that
only a number with as many in front of its point has to be compared. -/
def isInfinite (s : Scientific) : Bool :=
  let significant := s.digits.dropWhile (· == '0')
  let size := (significant.length : Int) + s.exponent
  if significant = [] ∨ size < 309 then false
  else if 309 < size then true
  else
    infinity * Nat.pow 10 (-s.exponent).toNat ≤
      Decimal.value significant * Nat.pow 10 s.exponent.toNat

end Scientific

/-- Whether a word names infinity or no number at all. -/
def isSpecial (cs : List Char) : Bool :=
  let body := (Decimal.splitSign cs).2
  body = "inf".toList || body = "nan".toList

/-- Reads a number as a value. -/
def number? (cs : List Char) : Option Json :=
  match integer? cs with
  | some n => (Amount.ofInt? n).map fun a => .int a.toInt
  | none =>
    match Scientific.read? cs with
    | some s =>
      if s.isInfinite && !s.negative then none else some (.float (String.ofList cs))
    | none => if isSpecial cs then some (.float (String.ofList cs)) else none

end Tabletop.Toml
