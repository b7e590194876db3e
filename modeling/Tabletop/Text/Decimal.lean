/-!
# Decimal text

Whole numbers written with ASCII digits.

* `Decimal.digits`, `Decimal.natural?` — a natural number and its digits; leading zeros are read.
* `Decimal.integer`, `Decimal.integer?` — an integer with a minus sign where it is negative; a plus
  sign is read too.
* `Decimal.signed` — an integer with its sign always written, zero as `+0`.
* `Decimal.isWhole`, `Decimal.isExponent` — the parts of a number before its point and behind its
  digits.

`natural?_digits` and `integer?_integer` say that what is written is read back.
-/

namespace Tabletop.Decimal

/-- The decimal digits of a natural number. -/
def digits (n : Nat) : List Char :=
  Nat.toDigits 10 n

/-- The number a run of digits stands for; the empty run stands for zero. -/
def value (cs : List Char) : Nat :=
  Nat.ofDigitChars 10 cs 0

/-- Reads a natural number: one or more ASCII digits. -/
def natural? (cs : List Char) : Option Nat :=
  if cs ≠ [] ∧ cs.all Char.isDigit then some (value cs) else none

/-- Reads an integer: an optional sign and one or more ASCII digits. -/
def integer? : List Char → Option Int
  | '-' :: cs => (natural? cs).map fun (n : Nat) => -(n : Int)
  | '+' :: cs => (natural? cs).map Int.ofNat
  | cs => (natural? cs).map Int.ofNat

/-- Whether a minus sign stands in front of a text, and the text without its sign. -/
def splitSign : List Char → Bool × List Char
  | '-' :: cs => (true, cs)
  | '+' :: cs => (false, cs)
  | cs => (false, cs)

/-- Whether digits are the whole part of a number: there is one, and no zero in front of others. -/
def isWhole : List Char → Bool
  | [] => false
  | [_] => true
  | c :: _ => c != '0'

/-- Whether a text is an exponent, with a sign or without, or nothing. -/
def isExponent : List Char → Bool
  | [] => true
  | e :: cs => (e = 'e' || e = 'E') && (natural? (splitSign cs).2).isSome

/-- Writes an integer, with a sign only when it is negative. -/
def integer (n : Int) : List Char :=
  if n < 0 then '-' :: digits n.natAbs else digits n.natAbs

/-- Writes an integer with its sign. -/
def signed (n : Int) : List Char :=
  if n < 0 then '-' :: digits n.natAbs else '+' :: digits n.natAbs

/-- The decimal text of a natural number. -/
def text (n : Nat) : String :=
  String.ofList (digits n)

theorem digits_ne_nil (n : Nat) : digits n ≠ [] :=
  Nat.toDigits_ne_nil

theorem isDigit_of_mem_digits {n : Nat} {c : Char} (h : c ∈ digits n) : c.isDigit = true :=
  Nat.isDigit_of_mem_toDigits (by decide) (by decide) h

@[simp] theorem all_isDigit_digits (n : Nat) : (digits n).all Char.isDigit = true :=
  List.all_eq_true.mpr fun _ h => isDigit_of_mem_digits h

/-- An integer is written with digits and, where it is negative, a minus sign. -/
theorem mem_integer {n : Int} {c : Char} (h : c ∈ integer n) : c = '-' ∨ c.isDigit = true := by
  rw [integer] at h
  split at h
  · exact (List.mem_cons.mp h).imp_right isDigit_of_mem_digits
  · exact .inr (isDigit_of_mem_digits h)

/-- An integer with its sign is written with digits behind a sign. -/
theorem mem_signed {n : Int} {c : Char} (h : c ∈ signed n) :
    c = '-' ∨ c = '+' ∨ c.isDigit = true := by
  rw [signed] at h
  split at h
  · exact (List.mem_cons.mp h).imp_right fun h => .inr (isDigit_of_mem_digits h)
  · exact .inr ((List.mem_cons.mp h).imp_right isDigit_of_mem_digits)

@[simp] theorem value_digits (n : Nat) : value (digits n) = n :=
  Nat.ofDigitChars_ten_toDigits

/-- A natural number is read back from its digits. -/
@[simp] theorem natural?_digits (n : Nat) : natural? (digits n) = some n := by
  simp [natural?, digits_ne_nil]

theorem natural?_eq_some_iff {cs : List Char} {n : Nat} :
    natural? cs = some n ↔ (cs ≠ [] ∧ cs.all Char.isDigit) ∧ value cs = n := by
  unfold natural?
  split <;> rename_i h
  · simp [h]
  · exact ⟨nofun, fun hn => absurd hn.1 h⟩

/-- The first digit of a number is neither sign. -/
theorem natural?_sign (cs : List Char) :
    natural? ('-' :: cs) = none ∧ natural? ('+' :: cs) = none :=
  ⟨by simp [natural?, Char.isDigit], by simp [natural?, Char.isDigit]⟩

/-- An integer written with its sign is read back. -/
@[simp] theorem integer?_signed (n : Int) : integer? (signed n) = some n := by
  unfold signed
  split
  · rw [integer?, natural?_digits, Option.map_some, Option.some.injEq]
    omega
  · rw [integer?, natural?_digits, Option.map_some, Option.some.injEq, Int.ofNat_eq_natCast]
    omega

/-- Digits are read as an integer as they are read as a natural number. -/
theorem integer?_digits (n : Nat) : integer? (digits n) = some (n : Int) := by
  have hd : natural? (digits n) = some n := natural?_digits n
  unfold integer?
  split
  · rename_i cs heq
    rw [heq, (natural?_sign cs).1] at hd
    cases hd
  · rename_i cs heq
    rw [heq, (natural?_sign cs).2] at hd
    cases hd
  · rw [hd, Option.map_some, Int.ofNat_eq_natCast]

/-- An integer is read back from its text. -/
@[simp] theorem integer?_integer (n : Int) : integer? (integer n) = some n := by
  unfold integer
  split
  · rw [integer?, natural?_digits, Option.map_some, Option.some.injEq]
    omega
  · rw [integer?_digits, Option.some.injEq]
    omega

end Tabletop.Decimal
