import Tabletop.Evaluation
import Tabletop.Modifier.Combine

/-!
# Describing a roll

One line that breaks a roll down:

```text
1d20 [15] +1d4 [[4+2]] +3 +2 Strength +1 Bless (1d4 [1]) = 27 vs 20 (✅)
```

* `DiceGroup.ofRolled` — the base dice, grouped by size and sign: larger dice first, added dice
  before subtracted dice of the same size.
* `ModifierShare.of` — what a modifier shows: its amount, its name, and the dice it rolled.
* `describe` — the groups, the constants of the formula, the modifiers, the total and the verdict.
-/

namespace Tabletop

/-! ## Dice -/

/-- One die: its roll, or its chain of rolls in brackets. Of a capped chain only the ends show. -/
def RolledDie.chars (die : RolledDie) : List Char :=
  match die.rolls, die.capped with
  | [single], false => Decimal.digits single.toNat
  | first :: second :: rest, true =>
    '[' :: Decimal.digits first.toNat ++ "+…+".toList ++
      Decimal.digits ((second :: rest).getLastD first).toNat ++ " (".toList ++
      Decimal.digits (rest.length + 2) ++ " rolls, capped)]".toList
  | rolls, capped =>
    '[' :: ['+'].intercalate (rolls.map fun r => Decimal.digits r.toNat) ++
      (if capped then " (capped)".toList else []) ++ [']']

/-- A list of dice in brackets. -/
def diceChars (dice : List RolledDie) : List Char :=
  '[' :: ", ".toList.intercalate (dice.map RolledDie.chars) ++ [']']

/-- A part of the line with its sign; a leading plus is left out. -/
def signedChars (sign : Sign) (first : Bool) (body : List Char) : List Char :=
  if sign = .plus ∧ first then body else sign.symbol :: body

/-- Parts of a line with a space between. -/
def spaced (parts : List (List Char)) : List Char :=
  [' '].intercalate parts

/-! ## Base dice -/

/-- The size and the sign by which base dice are grouped. -/
structure GroupKey where
  sides : UInt32
  sign : Sign
  deriving DecidableEq, Repr

namespace GroupKey

/-- Whether a group stands before another: larger dice first, then added before subtracted. -/
def before (a b : GroupKey) : Bool :=
  decide (b.sides < a.sides) || (a.sides == b.sides && a.sign == .plus && b.sign == .minus)

/-- The key of a base dice term; none for any other term. -/
def of? (t : RolledTerm) : Option GroupKey :=
  if t.term.origin = .base then t.sides?.map fun sides => ⟨sides, t.term.sign⟩ else none

end GroupKey

/-- Puts `x` into a list kept in the order `before`, unless its place is taken. -/
def insertRanked {α : Type} (before : α → α → Bool) (x : α) : List α → List α
  | [] => [x]
  | y :: ys =>
    if before x y then x :: y :: ys
    else if before y x then y :: insertRanked before x ys
    else y :: ys

/-- The distinct members of a list in the order `before`. -/
def ranked {α : Type} (before : α → α → Bool) (xs : List α) : List α :=
  xs.foldr (insertRanked before) []

/-- The base dice of one size and sign, in the order of the formula. -/
structure DiceGroup where
  key : GroupKey
  dice : List RolledDie
  deriving DecidableEq, Repr

namespace DiceGroup

/-- The base dice of a roll in groups. -/
def ofRolled (rolled : List RolledTerm) : List DiceGroup :=
  (ranked GroupKey.before (rolled.filterMap GroupKey.of?)).map fun key =>
    ⟨key, (rolled.filter fun t => GroupKey.of? t = some key).flatMap RolledTerm.dice⟩

/-- A group: how many dice it lists, their size, and the dice. -/
def chars (g : DiceGroup) : List Char :=
  Decimal.digits g.dice.length ++ 'd' :: Decimal.digits g.key.sides.toNat ++
    ' ' :: diceChars g.dice

/-- The groups of a line; only the first may leave out its plus. -/
def parts : List DiceGroup → List (List Char)
  | [] => []
  | g :: rest =>
    signedChars g.key.sign true g.chars :: rest.map fun g => signedChars g.key.sign false g.chars

end DiceGroup

/-- The signed amounts of the formula's own constants, in order. -/
def baseConstants (rolled : List RolledTerm) : List Amount :=
  (rolled.filter fun t => t.term.origin = .base).filterMap (·.term.constantValue?)

/-! ## Modifiers -/

/-- What a modifier shows in the line. -/
inductive ModifierShare where
  /-- a whole number -/
  | integer (amount : Amount) (name : String)
  /-- an expression that rolled nothing -/
  | inert (name expression : String)
  /-- an expression and the terms it rolled -/
  | rolled (name : String) (terms : List RolledTerm)
  deriving DecidableEq, Repr

namespace ModifierShare

/-- What the modifier at `index` shows, given the whole roll. -/
def of (rolled : List RolledTerm) (index : Nat) (m : Modifier) : ModifierShare :=
  match m.value with
  | .integer amount => .integer amount m.name
  | .dice expression =>
    match rolled.filter fun t => t.term.origin = .modifier index with
    | [] => .inert m.name expression
    | terms => .rolled m.name terms

/-- The amount a share starts with. -/
def amount : ModifierShare → Amount
  | integer amount _ => amount
  | inert .. => 0
  | rolled _ terms => Amount.total 0 (terms.map RolledTerm.value)

/-- A term of an expression: dice with their rolls, or the constant. -/
def termChars (t : RolledTerm) : List Char :=
  if t.term.isDice then t.term.kind.chars ++ ' ' :: diceChars t.dice else t.term.kind.chars

/-- The terms of an expression; only the first may leave out its plus. -/
def termParts : List RolledTerm → List (List Char)
  | [] => []
  | t :: rest =>
    signedChars t.term.sign true (termChars t) ::
      rest.map fun t => signedChars t.term.sign false (termChars t)

/-- What stands after the amount: the name, and in parentheses what became of an expression. -/
def label : ModifierShare → List Char
  | integer _ name => name.toList
  | inert name expression => name.toList ++ " (invalid: ".toList ++ expression.toList ++ [')']
  | rolled name terms => name.toList ++ " (".toList ++ spaced (termParts terms) ++ [')']

/-- A share as part of the line. -/
def text (share : ModifierShare) : String :=
  String.ofList (Decimal.signed share.amount.toInt ++ ' ' :: share.label)

/-- The shares of modifiers whose first one is at `index`. -/
def listFrom (rolled : List RolledTerm) (index : Nat) : List Modifier → List ModifierShare
  | [] => []
  | m :: rest => of rolled index m :: listFrom rolled (index + 1) rest

end ModifierShare

/-- The description of every modifier, in order. -/
def modifierDescriptions (modifiers : List Modifier) (rolled : List RolledTerm) : List String :=
  (ModifierShare.listFrom rolled 0 modifiers).map ModifierShare.text

/-! ## The line -/

/-- The mark of a verdict. -/
def verdictMark (success : Bool) : Char :=
  if success then '✅' else '❌'

/-- The total, and the verdict where there is one. -/
def verdictChars (evaluation : Evaluation) : List Char :=
  " = ".toList ++ Decimal.integer evaluation.total.toInt ++
    match evaluation.success, evaluation.against with
    | some success, some against =>
      " vs ".toList ++ Decimal.integer against.toInt ++ [' ', '(', verdictMark success, ')']
    | _, _ => []

/-- The parts of the line before the total. -/
def breakdownParts (rolled : List RolledTerm) (descriptions : List String) : List (List Char) :=
  DiceGroup.parts (DiceGroup.ofRolled rolled) ++
    (baseConstants rolled).map (fun value => Decimal.signed value.toInt) ++
    descriptions.map String.toList

/-- The line that breaks a roll down. -/
def describe (rolled : List RolledTerm) (evaluation : Evaluation) (descriptions : List String) :
    String :=
  String.ofList (spaced (breakdownParts rolled descriptions) ++ verdictChars evaluation)

end Tabletop
