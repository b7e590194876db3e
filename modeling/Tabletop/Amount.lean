import Tabletop.Text.Decimal

/-!
# Amounts

Totals, targets and constants are signed 64-bit whole numbers.

* `Amount.ofInt?` — an integer as an amount, when it is in range.
* `Amount.add` — addition that stops at the ends of the range (`Amount.toInt_add`); `Amount.total`
  folds it.
* `Amount.text`, `Amount.signedText`, `Amount.read?` — amounts as decimal text.

`+`, `-` and `*` on amounts are those of 64-bit words.
-/

namespace Tabletop

/-- A signed 64-bit whole number. -/
abbrev Amount := Int64

namespace Amount

/-- The least amount, as an integer. -/
def least : Int := -9223372036854775808

/-- The greatest amount, as an integer. -/
def greatest : Int := 9223372036854775807

/-- An integer as an amount, when it is in range. -/
def ofInt? (n : Int) : Option Amount :=
  if least ≤ n ∧ n ≤ greatest then some (Int64.ofInt n) else none

/-- A count or the face of a die as an amount. -/
def ofWord (n : UInt32) : Amount :=
  Int64.ofNat n.toNat

/-- The sum of two amounts, or the end of the range that the exact sum lies beyond. -/
def add (a b : Amount) : Amount :=
  Int64.ofIntClamp (a.toInt + b.toInt)

/-- Adds amounts to `start` one after the other, stopping at the ends of the range each time. -/
def total (start : Amount) (amounts : List Amount) : Amount :=
  amounts.foldl add start

/-- The distance of an amount from zero; that of the least amount, which is out of range, is the
greatest amount. -/
def magnitude (a : Amount) : Amount :=
  Int64.ofIntClamp a.toInt.natAbs

/-- The decimal text of an amount. -/
def text (a : Amount) : String :=
  String.ofList (Decimal.integer a.toInt)

/-- The decimal text of an amount with its sign always written. -/
def signedText (a : Amount) : String :=
  String.ofList (Decimal.signed a.toInt)

/-- Reads an amount: an optional sign and ASCII digits, in range. -/
def read? (cs : List Char) : Option Amount :=
  (Decimal.integer? cs).bind ofInt?

theorem toInt_bounds (a : Amount) : least ≤ a.toInt ∧ a.toInt ≤ greatest :=
  ⟨a.le_toInt, a.toInt_le⟩

/-- Every amount is the amount of its integer. -/
@[simp] theorem ofInt?_toInt (a : Amount) : ofInt? a.toInt = some a := by
  simp [ofInt?, toInt_bounds]

theorem toInt_of_ofInt? {n : Int} {a : Amount} (h : ofInt? n = some a) : a.toInt = n := by
  unfold ofInt? at h
  split at h <;> rename_i hn
  · cases h
    exact Int64.toInt_ofInt_of_le hn.1 (Int.lt_of_le_sub_one hn.2)
  · cases h

/-- The sum is the exact sum brought into the range. -/
theorem toInt_add (a b : Amount) :
    (a.add b).toInt = max least (min greatest (a.toInt + b.toInt)) := by
  have hleast : Int64.minValue.toInt = -9223372036854775808 := rfl
  have hgreatest : Int64.maxValue.toInt = 9223372036854775807 := rfl
  unfold add Int64.ofIntClamp least greatest
  split
  · split
    · rw [Int64.toInt_ofIntLE]
      omega
    · omega
  · omega

theorem total_nil (start : Amount) : total start [] = start := rfl

theorem total_cons (start a : Amount) (rest : List Amount) :
    total start (a :: rest) = total (add start a) rest := rfl

/-- An amount is read back from its text. -/
@[simp] theorem read?_integer (a : Amount) : read? (Decimal.integer a.toInt) = some a := by
  simp [read?]

/-- An amount is read back from its signed text. -/
@[simp] theorem read?_signed (a : Amount) : read? (Decimal.signed a.toInt) = some a := by
  simp [read?]

end Amount

end Tabletop
