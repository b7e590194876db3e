import Tabletop.Dice.Source
import Tabletop.Formula.Basic

/-!
# Rolled dice

Rolling every term of a formula from a source of dice, with explosions.

* `RolledDie` — one die: its natural roll, then the rolls of its explosions.
* `RolledTerm` — a term with what it rolled.
* `Explosions` — when a die explodes and how often at most.
* `Formula.roll` — rolls the dice term by term, die by die; each explosion is rolled before the
  next die.

A die explodes while its last roll is at or above its threshold. A die that would explode once more
than the cap allows is marked as capped.
-/

namespace Tabletop

/-- One rolled die. -/
structure RolledDie where
  /-- the natural roll, then every explosion -/
  rolls : List UInt32
  /-- whether the cap stopped the explosions -/
  capped : Bool
  deriving DecidableEq, Repr

namespace RolledDie

/-- The first roll; zero for a die without rolls. -/
def natural (die : RolledDie) : UInt32 :=
  die.rolls.head?.getD 0

/-- The natural roll and all explosions added up. -/
def total (die : RolledDie) : Amount :=
  (die.rolls.map Amount.ofWord).foldl (· + ·) 0

/-- How often the die exploded. -/
def explosions (die : RolledDie) : Nat :=
  die.rolls.length - 1

/-- Whether the natural roll is the highest face. -/
def isNaturalMax (die : RolledDie) (sides : UInt32) : Bool :=
  die.natural == sides

/-- Whether the natural roll is one. -/
def isNaturalMin (die : RolledDie) : Bool :=
  die.natural == 1

end RolledDie

/-- What a term rolled. -/
inductive TermResult where
  /-- the dice of a group -/
  | dice (dice : List RolledDie)
  /-- the signed amount of a constant -/
  | constant (value : Amount)
  deriving DecidableEq, Repr

/-- A term with what it rolled. -/
structure RolledTerm where
  term : Term
  result : TermResult
  deriving DecidableEq, Repr

namespace RolledTerm

/-- What the term adds to a summed total. The sign of the term applies to dice; the result of a
constant has its sign already. -/
def value (t : RolledTerm) : Amount :=
  match t.result with
  | .dice dice => t.term.sign.apply ((dice.map RolledDie.total).foldl (· + ·) 0)
  | .constant value => value

/-- The dice rolled; a constant has none. -/
def dice (t : RolledTerm) : List RolledDie :=
  match t.result with
  | .dice dice => dice
  | .constant _ => []

/-- How many sides the term's dice have; none for a constant term. -/
def sides? (t : RolledTerm) : Option UInt32 :=
  t.term.sides?

/-- Every face shown, die by die. -/
def faces (t : RolledTerm) : List UInt32 :=
  t.dice.flatMap RolledDie.rolls

end RolledTerm

/-- When dice explode. -/
structure Explosions where
  /-- the roll from which a die of some sides explodes; none when dice do not explode -/
  threshold? : UInt32 → Option UInt32
  /-- the most explosions of one die -/
  cap : UInt32

/-- No die explodes. -/
def Explosions.off : Explosions :=
  ⟨fun _ => none, 0⟩

/-! ## Rolling -/

section Rolling

variable {σ : Type} (source : DieSource σ)

/-- Rolls the explosions that follow the roll `last`, at most `room` of them: the rolls, and whether
the room ran out. -/
def explode (sides threshold : UInt32) : Nat → UInt32 → σ → (List UInt32 × Bool) × σ
  | 0, last, s => (([], threshold ≤ last), s)
  | room + 1, last, s =>
    if threshold ≤ last then
      let (face, s) := source.roll s sides
      let ((rolls, capped), s) := explode sides threshold room face s
      ((face :: rolls, capped), s)
    else (([], false), s)

/-- Rolls one die. -/
def rollDie (explosions : Explosions) (sides : UInt32) (s : σ) : RolledDie × σ :=
  let (natural, s) := source.roll s sides
  match explosions.threshold? sides with
  | none => (⟨[natural], false⟩, s)
  | some threshold =>
    let ((rolls, capped), s) := explode source sides threshold explosions.cap.toNat natural s
    (⟨natural :: rolls, capped⟩, s)

/-- Rolls dice of one size, one after the other. -/
def rollDice (explosions : Explosions) (sides : UInt32) : Nat → σ → List RolledDie × σ
  | 0, s => ([], s)
  | count + 1, s =>
    let (die, s) := rollDie source explosions sides s
    let (dice, s) := rollDice explosions sides count s
    (die :: dice, s)

/-- Rolls one term; a constant draws nothing. -/
def rollTerm (explosions : Explosions) (t : Term) (s : σ) : RolledTerm × σ :=
  match t.kind with
  | .constant value => (⟨t, .constant (t.sign.apply value)⟩, s)
  | .dice count sides =>
    let (dice, s) := rollDice source explosions sides count.toNat s
    (⟨t, .dice dice⟩, s)

/-- Rolls terms in order. -/
def rollTerms (explosions : Explosions) : List Term → σ → List RolledTerm × σ
  | [], s => ([], s)
  | t :: rest, s =>
    let (rolled, s) := rollTerm source explosions t s
    let (others, s) := rollTerms explosions rest s
    (rolled :: others, s)

/-- Rolls every term of a formula. -/
def Formula.roll (explosions : Explosions) (f : Formula) (s : σ) : List RolledTerm × σ :=
  rollTerms source explosions f.terms s

/-- Rolling a list of terms in two parts. -/
theorem rollTerms_append (explosions : Explosions) (ts us : List Term) (s : σ) :
    rollTerms source explosions (ts ++ us) s =
      let (rolled, s) := rollTerms source explosions ts s
      let (others, s) := rollTerms source explosions us s
      (rolled ++ others, s) := by
  induction ts generalizing s with
  | nil => rfl
  | cons t ts ih => simp [rollTerms, ih]

/-- A rolled term keeps its term. -/
theorem rollTerm_term (explosions : Explosions) (t : Term) (s : σ) :
    (rollTerm source explosions t s).1.term = t := by
  unfold rollTerm
  split <;> rfl

/-- The terms rolled are those given, in order. -/
theorem map_term_rollTerms (explosions : Explosions) (ts : List Term) (s : σ) :
    (rollTerms source explosions ts s).1.map RolledTerm.term = ts := by
  induction ts generalizing s with
  | nil => rfl
  | cons t ts ih => simp [rollTerms, rollTerm_term, ih]

theorem length_rollDice (explosions : Explosions) (sides : UInt32) (count : Nat) (s : σ) :
    (rollDice source explosions sides count s).1.length = count := by
  induction count generalizing s with
  | zero => rfl
  | succ count ih => simp [rollDice, ih]

end Rolling

end Tabletop
