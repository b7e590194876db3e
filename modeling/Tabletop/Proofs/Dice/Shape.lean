import Mathlib.Algebra.Order.Ring.Nat
import Tabletop.Formula.Range
import Tabletop.Proofs.Dice.Stream

/-!
# The shape of a roll

Every die shows a chain of explosions, and every term rolls what it says.

* `RolledDie.Chain` — the faces of one die: each but the last made the die explode.
* `RolledTerm.Fits` — what a rolled term holds, given its term.
* `rollTerms_fits` — every rolled term fits its term.
* `length_flatMap_asked` — one draw for each die counted and one for each explosion.
* `Formula.roll_stream` — stream and shape of the roll of a formula.
-/

namespace Tabletop

/-! ## Chains of explosions -/

/-- The faces of one die: those before the last are at or above the threshold, the last is below it
unless the die is capped, and a capped die has used up its explosions. -/
def RolledDie.Chain (explosions : Explosions) (sides : UInt32) (die : RolledDie) : Prop :=
  ∃ before last, die.rolls = before ++ [last] ∧ before.length ≤ explosions.cap.toNat ∧
    match explosions.threshold? sides with
    | none => before = [] ∧ die.capped = false
    | some threshold => (∀ face ∈ before, threshold ≤ face) ∧
      (die.capped = true ↔ threshold ≤ last) ∧
      (die.capped = true → before.length = explosions.cap.toNat)

section Rolling

variable {σ : Type} (source : DieSource σ) (explosions : Explosions)

/-- The explosions that follow a roll, with that roll in front: all but the last face explode, and
the room runs out exactly when the last one would explode too. -/
theorem explode_chain (sides threshold : UInt32) (room : Nat) (last : UInt32) (s : σ) :
    ∃ before final, last :: (explode source sides threshold room last s).1.1 = before ++ [final] ∧
      before.length ≤ room ∧ (∀ face ∈ before, threshold ≤ face) ∧
      ((explode source sides threshold room last s).1.2 = true ↔ threshold ≤ final) ∧
      ((explode source sides threshold room last s).1.2 = true → before.length = room) := by
  -- the induction is on the room; the face in front becomes the next one to look at
  induction room generalizing last s with
  | zero =>
    refine ⟨[], last, rfl, Nat.le_refl 0, nofun, ?_, fun _ => rfl⟩
    exact decide_eq_true_iff
  | succ room ih =>
    by_cases h : threshold ≤ last
    · rw [explode_of_le source h]
      obtain ⟨before, final, hrolls, hlength, hbefore, hcapped, hfull⟩ :=
        ih (source.roll s sides).1 (source.roll s sides).2
      refine ⟨last :: before, final, ?_, Nat.succ_le_succ hlength, ?_, hcapped, ?_⟩
      · rw [hrolls, List.cons_append]
      · exact List.forall_mem_cons.mpr ⟨h, hbefore⟩
      · intro hc
        rw [List.length_cons, hfull hc]
    · rw [explode_of_not_le source h]
      exact ⟨[], last, rfl, Nat.zero_le _, nofun, ⟨nofun, fun hl => absurd hl h⟩, nofun⟩

theorem rollDie_chain (sides : UInt32) (s : σ) :
    (rollDie source explosions sides s).1.Chain explosions sides := by
  rw [rollDie, RolledDie.Chain]
  -- a die that does not explode shows its natural roll alone
  cases explosions.threshold? sides with
  | none => exact ⟨[], (source.roll s sides).1, rfl, Nat.zero_le _, rfl, rfl⟩
  | some threshold =>
    exact explode_chain source sides threshold explosions.cap.toNat
      (source.roll s sides).1 (source.roll s sides).2

theorem rollDice_chain (sides : UInt32) (count : Nat) (s : σ) :
    ∀ die ∈ (rollDice source explosions sides count s).1, die.Chain explosions sides := by
  induction count generalizing s with
  | zero => exact nofun
  | succ count ih =>
    rw [rollDice_succ, List.forall_mem_cons]
    exact ⟨rollDie_chain source explosions sides s, ih _⟩

end Rolling

/-! ## Rolled terms -/

/-- The number with this sign in front. -/
def Sign.signed : Sign → Int → Int
  | plus, n => n
  | minus, n => -n

/-- The signed value of a constant is an amount: the least amount has no negative. -/
def Term.HasValue (t : Term) : Prop :=
  t.sign = .minus → t.kind ≠ .constant Int64.minValue

theorem Sign.toInt_apply {sign : Sign} {a : Amount} (h : sign = .minus → a ≠ Int64.minValue) :
    (sign.apply a).toInt = sign.signed a.toInt := by
  cases sign with
  | plus => rfl
  | minus =>
    have hleast : a.toInt ≠ Amount.least := fun ha => h rfl (Int64.toInt_inj.mp ha)
    obtain ⟨hlower, hupper⟩ := a.toInt_bounds
    rw [apply, Int64.toInt_neg, signed]
    rw [Amount.least] at hleast hlower
    rw [Amount.greatest] at hupper
    exact Int.bmod_eq_of_le (by omega) (by omega)

/-- What a term rolls: a constant its signed value, dice as many dice as it counts. -/
def RolledTerm.Fits (explosions : Explosions) (t : RolledTerm) : Prop :=
  match t.term.kind with
  | .constant value =>
    ∃ signed, t.result = .constant signed ∧ signed.toInt = t.term.sign.signed value.toInt
  | .dice count sides => ∃ dice, t.result = .dice dice ∧ dice.length = count.toNat ∧
    ∀ die ∈ dice, die.Chain explosions sides

section Kinds

variable {explosions : Explosions} {t : RolledTerm} {value : Amount} {count sides : UInt32}

theorem RolledTerm.fits_of_constant (h : t.term.kind = .constant value) :
    t.Fits explosions ↔
      ∃ signed, t.result = .constant signed ∧
        signed.toInt = t.term.sign.signed value.toInt := by
  rw [RolledTerm.Fits, h]

theorem RolledTerm.fits_of_dice (h : t.term.kind = .dice count sides) :
    t.Fits explosions ↔
      ∃ dice, t.result = .dice dice ∧ dice.length = count.toNat ∧
        ∀ die ∈ dice, die.Chain explosions sides := by
  rw [RolledTerm.Fits, h]

end Kinds

section Rolling

variable {σ : Type} (source : DieSource σ) (explosions : Explosions)

theorem rollTerm_fits {t : Term} (ht : t.HasValue) (s : σ) :
    (rollTerm source explosions t s).1.Fits explosions := by
  cases h : t.kind with
  | constant value =>
    rw [rollTerm_of_constant source explosions h, RolledTerm.fits_of_constant h]
    exact ⟨_, rfl, Sign.toInt_apply fun hminus hleast => ht hminus (hleast ▸ h)⟩
  | dice count sides =>
    rw [rollTerm_of_dice source explosions h, RolledTerm.fits_of_dice h]
    exact ⟨_, rfl, length_rollDice source explosions sides count.toNat s,
      rollDice_chain source explosions sides count.toNat s⟩

/-- **Every rolled term fits its term.** -/
theorem rollTerms_fits {ts : List Term} (hts : ∀ t ∈ ts, t.HasValue) (s : σ) :
    ∀ t ∈ (rollTerms source explosions ts s).1, t.Fits explosions := by
  induction ts generalizing s with
  | nil => exact nofun
  | cons t ts ih =>
    obtain ⟨ht, hrest⟩ := List.forall_mem_cons.mp hts
    rw [rollTerms_cons, List.forall_mem_cons]
    exact ⟨rollTerm_fits source explosions ht s, ih hrest _⟩

end Rolling

/-! ## Counting the draws -/

/-- A die shows one face more than it explodes. -/
theorem RolledDie.Chain.length_rolls {explosions : Explosions} {sides : UInt32} {die : RolledDie}
    (h : die.Chain explosions sides) : die.rolls.length = 1 + die.explosions := by
  obtain ⟨before, last, hrolls, -⟩ := h
  rw [RolledDie.explosions, hrolls, List.length_append, List.length_singleton]
  omega

theorem length_flatMap_rolls {explosions : Explosions} {sides : UInt32} {dice : List RolledDie}
    (h : ∀ die ∈ dice, die.Chain explosions sides) :
    (dice.flatMap RolledDie.rolls).length =
      dice.length + (dice.map RolledDie.explosions).sum := by
  induction dice with
  | nil => rfl
  | cons die dice ih =>
    obtain ⟨hdie, hdice⟩ := List.forall_mem_cons.mp h
    rw [List.flatMap_cons, List.length_append, hdie.length_rolls, ih hdice, List.length_cons,
      List.map_cons, List.sum_cons]
    omega

theorem RolledTerm.Fits.length_asked {explosions : Explosions} {t : RolledTerm}
    (h : t.Fits explosions) :
    t.asked.length = t.term.diceCount.toNat + (t.dice.map RolledDie.explosions).sum := by
  cases hk : t.term.kind with
  | constant value =>
    obtain ⟨result, hresult, -⟩ := (RolledTerm.fits_of_constant hk).mp h
    rw [RolledTerm.asked_of_constant hk, Term.diceCount, hk, RolledTerm.dice, hresult]
    rfl
  | dice count sides =>
    obtain ⟨dice, hresult, hlength, hchain⟩ := (RolledTerm.fits_of_dice hk).mp h
    have hdice : t.dice = dice := by rw [RolledTerm.dice, hresult]
    -- each of the `count` dice drew its natural roll and its explosions
    rw [RolledTerm.asked_of_dice hk, List.length_replicate, RolledTerm.faces, hdice,
      length_flatMap_rolls hchain, hlength, Term.diceCount, hk]

theorem length_flatMap_asked {explosions : Explosions} {rolled : List RolledTerm}
    (h : ∀ t ∈ rolled, t.Fits explosions) :
    (rolled.flatMap RolledTerm.asked).length =
      ((rolled.map RolledTerm.term).map fun t => t.diceCount.toNat).sum +
        ((rolled.flatMap RolledTerm.dice).map RolledDie.explosions).sum := by
  induction rolled with
  | nil => rfl
  | cons t rolled ih =>
    obtain ⟨ht, hrest⟩ := List.forall_mem_cons.mp h
    simp only [List.flatMap_cons, List.length_append, List.map_cons, List.sum_cons,
      List.map_append, List.sum_append, ht.length_asked, ih hrest]
    omega

theorem toNat_foldl_add (counts : List UInt32) (start : UInt32) :
    (counts.foldl (· + ·) start).toNat =
      (start.toNat + (counts.map UInt32.toNat).sum) % 2 ^ 32 := by
  induction counts generalizing start with
  | nil => exact (Nat.mod_eq_of_lt start.toNat_lt).symm
  | cons count counts ih =>
    rw [List.foldl_cons, ih, UInt32.toNat_add, Nat.mod_add_mod, Nat.add_assoc, List.map_cons,
      List.sum_cons]

/-- The number of dice is exact as long as it is a word. -/
theorem Formula.toNat_diceCount {f : Formula}
    (h : (f.terms.map fun t => t.diceCount.toNat).sum < 2 ^ 32) :
    f.diceCount.toNat = (f.terms.map fun t => t.diceCount.toNat).sum := by
  rw [Formula.diceCount, toNat_foldl_add, List.map_map]
  exact (congrArg (· % 2 ^ 32) (Nat.zero_add _)).trans (Nat.mod_eq_of_lt h)

/-! ## The roll of a formula -/

/-- **A formula rolls its terms from one stream.** The terms come back in order, each with what it
says; the faces they show are the answers of the source to the sizes asked for, in order, and the
state afterwards is the one after these draws: as many as the formula has dice, and one more for
each explosion. -/
theorem Formula.roll_stream {σ : Type} (source : DieSource σ) (explosions : Explosions)
    (f : Formula) (s : σ) (hcount : (f.terms.map fun t => t.diceCount.toNat).sum < 2 ^ 32)
    (hvalue : ∀ t ∈ f.terms, t.HasValue) :
    ∃ rolled s', f.roll source explosions s = (rolled, s') ∧
      rolled.map RolledTerm.term = f.terms ∧
      (∀ t ∈ rolled, t.Fits explosions) ∧
      source.draw (rolled.flatMap RolledTerm.asked) s = (rolled.flatMap RolledTerm.faces, s') ∧
      (rolled.flatMap RolledTerm.asked).length =
        f.diceCount.toNat + ((rolled.flatMap RolledTerm.dice).map RolledDie.explosions).sum := by
  have hterm := map_term_rollTerms source explosions f.terms s
  have hfits := rollTerms_fits source explosions hvalue s
  refine ⟨_, _, rfl, hterm, hfits, rollTerms_draw source explosions f.terms s, ?_⟩
  rw [length_flatMap_asked hfits, hterm, Formula.toNat_diceCount hcount]

/-- Two six-sided dice less five, at most one explosion each: the first die is capped. -/
theorem Formula.roll_stream_capped :
    let f : Formula := ⟨[.dice .plus 2 6, ⟨.minus, .constant 5, .base⟩]⟩
    let rolled : List RolledTerm :=
      [⟨.dice .plus 2 6, .dice [⟨[6, 6], true⟩, ⟨[3], false⟩]⟩,
        ⟨⟨.minus, .constant 5, .base⟩, .constant (-5)⟩]
    (f.terms.map fun t => t.diceCount.toNat).sum < 2 ^ 32 ∧ (∀ t ∈ f.terms, t.HasValue) ∧
      f.roll Script.source ⟨some, 1⟩ ⟨[6, 6, 3], 0⟩ = (rolled, ⟨[6, 6, 3], 3⟩) ∧
      (∀ t ∈ rolled, t.Fits ⟨some, 1⟩) ∧
      Script.source.draw [6, 6, 6] ⟨[6, 6, 3], 0⟩ = ([6, 6, 3], ⟨[6, 6, 3], 3⟩) := by
  intro f rolled
  have hcount : (f.terms.map fun t => t.diceCount.toNat).sum < 2 ^ 32 := by decide
  have hvalue : ∀ t ∈ f.terms, t.HasValue := by
    refine List.forall_mem_cons.mpr ⟨nofun, List.forall_mem_singleton.mpr ?_⟩
    exact fun _ h => absurd h (by decide)
  have hroll : f.roll Script.source ⟨some, 1⟩ ⟨[6, 6, 3], 0⟩ = (rolled, ⟨[6, 6, 3], 3⟩) := by
    decide
  obtain ⟨_, _, heq, -, hfits, hdraw, -⟩ :=
    Formula.roll_stream Script.source ⟨some, 1⟩ f ⟨[6, 6, 3], 0⟩ hcount hvalue
  rw [hroll] at heq
  obtain ⟨rfl, rfl⟩ := Prod.mk.inj heq
  exact ⟨hcount, hvalue, hroll, hfits, hdraw⟩

end Tabletop
