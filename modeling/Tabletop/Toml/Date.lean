import Tabletop.Text.Decimal

/-!
# The dates of TOML

* `Toml.isDate` — a day of the calendar: `1979-05-27`.
* `Toml.isTime` — a time of day: `07:32:00`, with a fraction of a second or without.
* `Toml.isZonedTime` — a time of day with its offset, or without one.
* `Toml.isMoment` — any of them, or a date with a time behind it.
-/

namespace Tabletop.Toml

/-- The number of days of a month. -/
def daysOf (year month : Nat) : Nat :=
  if month = 2 then
    if year % 4 = 0 ∧ (year % 100 ≠ 0 ∨ year % 400 = 0) then 29 else 28
  else if month ∈ [4, 6, 9, 11] then 30
  else 31

/-- Whether digits are a number below a bound. -/
def isBelow (bound : Nat) (digits : List Char) : Bool :=
  (Decimal.natural? digits).any (· < bound)

/-- Whether a text is a day: four digits for the year, two for the month, two for the day. -/
def isDate : List Char → Bool
  | [y₁, y₂, y₃, y₄, '-', m₁, m₂, '-', d₁, d₂] =>
    match Decimal.natural? [y₁, y₂, y₃, y₄], Decimal.natural? [m₁, m₂],
      Decimal.natural? [d₁, d₂] with
    | some year, some month, some day =>
      1 ≤ month && month ≤ 12 && 1 ≤ day && day ≤ daysOf year month
    | _, _, _ => false
  | _ => false

/-- Whether a text is a time of day; a minute may have a leap second. -/
def isTime : List Char → Bool
  | h₁ :: h₂ :: ':' :: m₁ :: m₂ :: ':' :: s₁ :: s₂ :: fraction =>
    isBelow 24 [h₁, h₂] && isBelow 60 [m₁, m₂] && isBelow 61 [s₁, s₂] &&
      match fraction with
      | [] => true
      | '.' :: digits => (Decimal.natural? digits).isSome
      | _ => false
  | _ => false

/-- Whether a text is the distance of a local time from universal time, or nothing. -/
def isOffset : List Char → Bool
  | [] => true
  | ['Z'] => true
  | ['z'] => true
  | [sign, h₁, h₂, ':', m₁, m₂] =>
    (sign = '+' || sign = '-') && isBelow 24 [h₁, h₂] && isBelow 60 [m₁, m₂]
  | _ => false

/-- Whether a text is a time of day with an offset behind it, or with none. -/
def isZonedTime (cs : List Char) : Bool :=
  let inTime := fun (c : Char) => c.isDigit || c = ':' || c = '.'
  isTime (cs.takeWhile inTime) && isOffset (cs.dropWhile inTime)

/-- Whether a word is a date, a time, or a date with a time behind it. -/
def isMoment (cs : List Char) : Bool :=
  isDate cs || isTime cs ||
    match cs.drop 10 with
    | c :: rest => isDate (cs.take 10) && (c = 'T' || c = 't') && isZonedTime rest
    | [] => false

end Tabletop.Toml
