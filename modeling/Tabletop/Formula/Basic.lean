import Tabletop.Amount

/-!
# Dice formulas

A formula is a list of signed terms, each a group of dice (`2d6`) or a constant (`3`).

* `Term` — one term: its sign, what it is, and where it came from.
* `Formula` — the list of terms. Reading a text never gives the empty list, a stored formula may
  hold it.
* `Formula.text` — the canonical text: every sign but a leading plus, every dice count, no blanks.
-/

namespace Tabletop

/-- The sign of a term. -/
inductive Sign where
  | plus
  | minus
  deriving DecidableEq, Repr

namespace Sign

/-- The character a sign is written with. -/
def symbol : Sign → Char
  | plus => '+'
  | minus => '-'

/-- The sign a character stands for. -/
def ofSymbol? : Char → Option Sign
  | '+' => some plus
  | '-' => some minus
  | _ => none

/-- The amount with this sign in front. -/
def apply : Sign → Amount → Amount
  | plus, a => a
  | minus, a => -a

@[simp] theorem ofSymbol?_symbol (s : Sign) : ofSymbol? s.symbol = some s := by
  cases s <;> rfl

theorem ofSymbol?_eq_some_iff {c : Char} {s : Sign} : ofSymbol? c = some s ↔ c = s.symbol := by
  constructor
  · intro h
    unfold ofSymbol? at h
    split at h <;> cases h <;> rfl
  · rintro rfl
    exact ofSymbol?_symbol s

end Sign

/-- What a term is, apart from its sign. -/
inductive TermKind where
  /-- `count` dice of `sides` sides each -/
  | dice (count sides : UInt32)
  /-- a constant; the sign of the term gives its direction -/
  | constant (value : Amount)
  deriving DecidableEq, Repr

namespace TermKind

/-- The characters of a term without its sign. -/
def chars : TermKind → List Char
  | dice count sides => Decimal.digits count.toNat ++ 'd' :: Decimal.digits sides.toNat
  | constant value => Decimal.integer value.toInt

/-- The text of a term without its sign. -/
def text (k : TermKind) : String :=
  String.ofList k.chars

end TermKind

/-- Where a term came from. -/
inductive Origin where
  /-- written in the formula itself -/
  | base
  /-- contributed by the modifier at this place of the list -/
  | modifier (index : Nat)
  /-- the net of all whole-number modifiers -/
  | netModifier
  deriving DecidableEq, Repr

/-- One signed part of a formula. -/
structure Term where
  /-- the term's sign -/
  sign : Sign
  /-- dice or constant -/
  kind : TermKind
  /-- where the term came from -/
  origin : Origin
  deriving DecidableEq, Repr

namespace Term

/-- A group of dice written in a formula. -/
def dice (sign : Sign) (count sides : UInt32) : Term :=
  ⟨sign, .dice count sides, .base⟩

/-- The constant term of a signed amount. -/
def constant (value : Amount) : Term :=
  ⟨if value < 0 then .minus else .plus, .constant value.magnitude, .base⟩

/-- Whether the term is a group of dice. -/
def isDice (t : Term) : Bool :=
  match t.kind with
  | .dice .. => true
  | .constant _ => false

/-- How many sides the term's dice have; none for a constant. -/
def sides? (t : Term) : Option UInt32 :=
  match t.kind with
  | .dice _ sides => some sides
  | .constant _ => none

/-- The signed amount of a constant term; none for dice. -/
def constantValue? (t : Term) : Option Amount :=
  match t.kind with
  | .dice .. => none
  | .constant value => some (t.sign.apply value)

theorem isDice_eq_isSome_sides? (t : Term) : t.isDice = t.sides?.isSome := by
  cases t with
  | mk sign kind origin => cases kind <;> rfl

theorem isDice_eq_isNone_constantValue? (t : Term) : t.isDice = t.constantValue?.isNone := by
  cases t with
  | mk sign kind origin => cases kind <;> rfl

end Term

/-- A list of signed terms. -/
structure Formula where
  /-- the terms, in the order written -/
  terms : List Term
  deriving DecidableEq, Repr

namespace Formula

/-- The formula of a list of terms, when there is a term. -/
def ofTerms? : List Term → Option Formula
  | [] => none
  | terms => some ⟨terms⟩

/-- Whether some term is dice. -/
def hasDice (f : Formula) : Bool :=
  f.terms.any Term.isDice

/-- The characters of terms that follow another term: each with its sign. -/
def tailChars (terms : List Term) : List Char :=
  terms.flatMap fun t => t.sign.symbol :: t.kind.chars

/-- The characters of a formula: its first term has a sign only when that is a minus. -/
def chars (f : Formula) : List Char :=
  match f.terms with
  | [] => []
  | t :: rest =>
    (if t.sign = .minus then [t.sign.symbol] else []) ++ t.kind.chars ++ tailChars rest

/-- The canonical text of a formula. -/
def text (f : Formula) : String :=
  String.ofList f.chars

end Formula

end Tabletop
