/-!
# Hexadecimal text

* `Hexadecimal.digit`, `Hexadecimal.value?` — a number below sixteen and its digit; capital letters
  are read too.
* `Hexadecimal.number?` — the number of a run of digits.
* `Hexadecimal.char?` — the character whose code point a run of digits is.

`value?_digit` says that a digit is read back.
-/

namespace Tabletop.Hexadecimal

/-- The digit of a number below sixteen, in lower case. -/
def digit (n : Nat) : Char :=
  if n < 10 then Char.ofNat ('0'.toNat + n) else Char.ofNat ('a'.toNat + (n - 10))

/-- The value of a digit. -/
def value? (c : Char) : Option Nat :=
  if c.isDigit then some (c.toNat - '0'.toNat)
  else if 'a' ≤ c ∧ c ≤ 'f' then some (c.toNat - 'a'.toNat + 10)
  else if 'A' ≤ c ∧ c ≤ 'F' then some (c.toNat - 'A'.toNat + 10)
  else none

/-- The number of a run of digits; the empty run stands for zero. -/
def number? (cs : List Char) : Option Nat :=
  cs.foldl (fun n c => do return (← n) * 16 + (← value? c)) (some 0)

/-- The character whose code point is given; none for a surrogate or beyond the last. -/
def char? (cs : List Char) : Option Char :=
  (number? cs).bind fun n => if n.isValidChar then some (Char.ofNat n) else none

theorem value?_digit : ∀ n : Nat, n < 16 → value? (digit n) = some n := by
  decide

end Tabletop.Hexadecimal
