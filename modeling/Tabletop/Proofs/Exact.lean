import Tabletop.Proofs.Formula.Bounds
import Tabletop.Proofs.Modifier.Net

/-!
# Exact sums

Faces, totals of dice and values of terms are added and negated in words, which wrap. With few
enough dice of a supported size they never do, whatever the cap. The total of a summed roll then
differs from the exact sum only where one of its two saturating totals stops, that of the whole
numbers or that of the values, or where the whole numbers add up to the least amount.

* `RolledTerm.Exact` — nothing wraps in what is computed for a rolled term.
* `Formula.exact_of_mem_roll` — so it is for every term of a roll.
* `Evaluation.exists_of_perm` — values that do not stop on the way, in another order.
* `resolve_exact` — the terms of a request and its total.
-/

namespace Tabletop

/-! ## Rolled terms -/

/-- What the sign of a rolled term is applied to: the amount of a constant, or the dice added up. -/
def RolledTerm.magnitude (t : RolledTerm) : Amount :=
  match t.term.kind with
  | .constant value => value
  | .dice .. => (t.dice.map RolledDie.total).foldl (· + ·) 0

/-- Nothing wraps in a rolled term: what is counted, added and negated for it is exact. -/
structure RolledTerm.Exact (cap : UInt32) (t : RolledTerm) : Prop where
  /-- no die counts more explosions than the cap -/
  explosions : ∀ die ∈ t.dice, die.explosions ≤ cap.toNat
  /-- the faces of a die are added exactly, step by step -/
  faces : ∀ die ∈ t.dice, Amount.AddsExactly (die.rolls.map Amount.ofWord)
  /-- their sum is the total of the die -/
  total : ∀ die ∈ t.dice, die.total.toInt = faceSum die.rolls
  /-- the totals of the dice are added exactly, step by step -/
  dice : Amount.AddsExactly (t.dice.map RolledDie.total)
  /-- the value is the magnitude with the sign of the term -/
  sign : t.value = t.term.sign.apply t.magnitude
  /-- the least amount, which has no negative, is not negated -/
  negated : t.magnitude ≠ Int64.minValue
  /-- the value is what the term counts for, in exact numbers -/
  value : t.value.toInt = t.worth
  /-- dice count for no more than the cap lets them -/
  bound : t.term.isDice = true → t.worth.natAbs ≤ 100 * 1000 * (cap.toNat + 1)

theorem Sign.natAbs_signed (sign : Sign) (n : Int) : (sign.signed n).natAbs = n.natAbs := by
  cases sign with
  | plus => rfl
  | minus => exact Int.natAbs_neg n

namespace RolledTerm.Fits

variable {explosions : Explosions} {t : RolledTerm} (hfits : t.Fits explosions)

include hfits

theorem explosions_le {die : RolledDie} (hdie : die ∈ t.dice) :
    die.explosions ≤ explosions.cap.toNat := by
  cases hkind : t.term.kind with
  | constant value =>
    obtain ⟨signed, hresult, -⟩ := (fits_of_constant hkind).mp hfits
    rw [dice, hresult] at hdie
    cases hdie
  | dice count sides =>
    obtain ⟨dice, hresult, -, hchain⟩ := (fits_of_dice hkind).mp hfits
    rw [RolledTerm.dice, hresult] at hdie
    have hlength := (hchain die hdie).length_rolls_le
    rw [RolledDie.explosions]
    omega

variable (hrange : t.term.kind.InRange) (hfaces : t.FacesInRange)

include hrange hfaces

theorem value_eq_apply_magnitude : t.value = t.term.sign.apply t.magnitude := by
  cases hkind : t.term.kind with
  | constant value =>
    refine value_eq_of_constantValue? (hfits.toInt_value hrange hfaces) hrange ?_
    rw [Term.constantValue?, magnitude, hkind]
  | dice count sides =>
    obtain ⟨dice, hresult, -⟩ := (fits_of_dice hkind).mp hfits
    rw [value, magnitude, hkind, RolledTerm.dice, hresult]

/-- A magnitude is never negative. -/
theorem magnitude_nonneg : 0 ≤ t.magnitude.toInt := by
  cases hkind : t.term.kind with
  | constant value =>
    rw [hkind] at hrange
    rw [magnitude, hkind]
    exact hrange
  | dice count sides =>
    have hsum : (faceSum t.faces : Int) ≤ Amount.greatest := hfits.faceSum_le hrange hfaces
    rw [magnitude, hkind]
    dsimp only
    rw [toInt_foldl_total hsum]
    exact Int.natCast_nonneg _

/-- **A term that fits, with dice in range, is exact.** -/
theorem exact : t.Exact explosions.cap := by
  have hsum : (faceSum (t.dice.flatMap RolledDie.rolls) : Int) ≤ Amount.greatest :=
    hfits.faceSum_le hrange hfaces
  refine ⟨fun die => hfits.explosions_le, fun die hdie => ?_,
    fun die => RolledDie.toInt_total_of_mem hsum, addsExactly_map_total hsum,
    hfits.value_eq_apply_magnitude hrange hfaces, ?_, hfits.toInt_value hrange hfaces, ?_⟩
  · have hle := faceSum_rolls_le hdie
    exact Amount.addsExactly_map_ofWord (by omega)
  · intro hleast
    have hnonneg := hfits.magnitude_nonneg hrange hfaces
    rw [hleast] at hnonneg
    exact absurd hnonneg (by decide)
  · intro hdice
    have hbound := hfits.faceSum_le_of_cap hrange hfaces
    cases hkind : t.term.kind with
    | constant value =>
      rw [Term.isDice, hkind] at hdice
      cases hdice
    | dice count sides =>
      rw [worth, Term.worth_of_dice hkind, Sign.natAbs_signed]
      exact hbound

end RolledTerm.Fits

/-- **Nothing wraps in a roll** of terms in range, whatever the source shows and however often its
dice explode. -/
theorem Formula.exact_of_mem_roll {σ : Type} {source : DieSource σ} (hsource : source.ShowsFaces)
    (explosions : Explosions) {f : Formula} (hrange : ∀ t ∈ f.terms, t.kind.InRange) (s : σ)
    {t : RolledTerm} (ht : t ∈ (f.roll source explosions s).1) : t.Exact explosions.cap := by
  have hfits := rollTerms_fits source explosions
    (fun t ht => TermKind.InRange.hasValue (hrange t ht)) s t ht
  exact hfits.exact (hrange t.term (term_mem source explosions ht))
    (rollTerms_facesInRange hsource explosions f.terms s t ht)

/-! ## The total -/

theorem exactSum_map_value {rolled : List RolledTerm}
    (h : ∀ t ∈ rolled, t.value.toInt = t.worth) :
    Amount.exactSum (rolled.map RolledTerm.value) = (rolled.map RolledTerm.worth).sum := by
  rw [Amount.exactSum, List.map_map]
  exact congrArg List.sum (List.map_congr_left h)

/-- Where values do not stop on the way, their order does not matter to a roll that is no pool. -/
theorem Evaluation.exists_of_perm {config : Config} {rolled order : List RolledTerm}
    {evaluation : Evaluation} (h : Evaluation.of config rolled 0 = .ok evaluation)
    (hmechanic : config.mechanic ≠ .dicePool) (hperm : order.Perm rolled)
    (hweight : (Amount.weight (rolled.map RolledTerm.value) : Int) ≤ Amount.greatest) :
    ∃ other, Evaluation.of config order 0 = .ok other ∧ other.total = evaluation.total := by
  refine ⟨_, of_eq_ofSum_of_ne_dicePool h hmechanic hperm.any_eq, ?_⟩
  rw [total_of_ne_dicePool h hmechanic]
  exact (Amount.total_eq_of_perm (hperm.map RolledTerm.value).symm hweight).symm

/-- **No sum wraps, and totals are exact unless they stop.** Take dice that show faces between one
and their sides, and any cap. Whatever a request rolls, no counter, sum or negation of a rolled term
leaves its range. The total of a summed roll adds up the values and stops at the ends of the range.
It is the exact sum of what the terms count for when no sum of the values stops on the way, and the
same in every order when their distances from zero add up to an amount. When no sum of the whole
numbers stops either, it is the exact sum of everything rolled and of the whole numbers, unless
these add up to the least amount: a net of the least amount counts for one more than it is. -/
theorem resolve_exact {σ : Type} {source : DieSource σ} (hsource : source.ShowsFaces)
    {config C : Config} {request : Request} {f : Formula}
    (hprepare : prepare config request = .ok (C, f)) (s : σ) :
    let rolled := (f.roll source C.explosions s).1
    let values := rolled.map RolledTerm.value
    let amounts := request.modifiers.filterMap Modifier.integer?
    let others := rolled.filter fun t => t.term.origin ≠ .netModifier
    (∀ t ∈ rolled, t.Exact C.explosionCap) ∧
    100 * 1000 * (C.explosionCap.toNat + 1) < 2 ^ 63 ∧
    ∀ o, (resolve source config request s).1 = .ok o → config.mechanic ≠ .dicePool →
      o.rolledTerms = rolled ∧ o.total = Amount.total 0 values ∧
      (Amount.StaysInRange values → o.total.toInt = (rolled.map RolledTerm.worth).sum) ∧
      (Amount.StaysInRange values → Amount.StaysInRange amounts →
        o.total.toInt = (others.map RolledTerm.worth).sum +
            max (-Amount.greatest) (Amount.exactSum amounts) ∧
          (Amount.exactSum amounts ≠ Amount.least →
            o.total.toInt = (others.map RolledTerm.worth).sum + Amount.exactSum amounts)) ∧
      ((Amount.weight values : Int) ≤ Amount.greatest → ∀ order, order.Perm rolled →
        ∃ evaluation, Evaluation.of C order 0 = .ok evaluation ∧ evaluation.total = o.total) := by
  intro rolled values amounts others
  obtain ⟨base, hp, rfl⟩ := exists_base_of_prepare hprepare
  obtain ⟨rfl, hread⟩ := read_of_prepareBase hp
  have hwell := Formula.wellFormed_of_readWith hread
  have hexact : ∀ t ∈ rolled, t.Exact (config.overriddenBy request).explosionCap := fun t ht =>
    Formula.exact_of_mem_roll hsource _ (Formula.inRange_combineWith hwell.inRange _) s ht
  have hcap := (config.overriddenBy request).explosionCap.toNat_lt
  refine ⟨hexact, by omega, fun o h hmechanic => ?_⟩
  rw [resolve_of_base source s hp] at h
  obtain ⟨evaluation, he, rfl⟩ := exists_of_map_eq_ok h
  have htotal : evaluation.total = Amount.total 0 values :=
    Evaluation.total_of_ne_dicePool he hmechanic
  refine ⟨rfl, htotal, ?_, ?_, ?_⟩
  · intro hvalues
    exact (congrArg Int64.toInt htotal).trans
      (hvalues.toInt_total.trans (exactSum_map_value fun t ht => (hexact t ht).value))
  · intro hvalues hamounts
    -- what is rolled in front of the net is all but the net
    have hroll : rolled = _ ++ Modifier.rolledNet request.modifiers :=
      congrArg Prod.fst (Formula.roll_combineWith source _ _ base request.modifiers s)
    have hothers : others = _ := (congrArg (List.filter _) hroll).trans
      (filter_append_rolledNet
        (fun t => Formula.origin_of_mem_rollFront source _ _ _ hwell.base) request.modifiers)
    have hworth : ∀ t ∈ others, t.value.toInt = t.worth :=
      fun t ht => (hexact t (List.mem_of_mem_filter ht)).value
    have hsum : evaluation.total.toInt = (others.map RolledTerm.worth).sum +
        max (-Amount.greatest) (Amount.exactSum amounts) := by
      have htotal' : evaluation.total = Evaluation.sumTotal rolled 0 := htotal
      have hvalues' : Amount.StaysInRange (rolled.map RolledTerm.value) := hvalues
      rw [hroll] at htotal' hvalues'
      rw [← exactSum_map_value hworth, hothers, htotal']
      exact toInt_sumTotal_append_rolledNet hamounts hvalues'
    have hbounds := hamounts amounts (List.prefix_refl amounts)
    refine ⟨hsum, fun hne => hsum.trans (congrArg (_ + ·) ?_)⟩
    rw [Amount.least] at hbounds hne
    rw [Amount.greatest]
    omega
  · intro hweight order hperm
    exact Evaluation.exists_of_perm he hmechanic hperm hweight

/-- The greatest cap, with a die that explodes twice, a subtracted die and a whole number. -/
theorem resolve_exact_exploded :
    let request : Request := ⟨some "2d6-1d4+3", [⟨"Str", .integer 2⟩], none, none⟩
    let config : Config := { exploding := true, explosionCap := 4294967295 }
    let f : Formula := ⟨[.dice .plus 2 6, .dice .minus 1 4, ⟨.plus, .constant 3, .base⟩,
      ⟨.plus, .constant 2, .netModifier⟩]⟩
    let rolled := (f.roll Script.source config.explosions ⟨[6, 6, 5, 2, 3], 0⟩).1
    Script.source.ShowsFaces ∧ prepare config request = .ok (config, f) ∧
      config.mechanic ≠ .dicePool ∧ (∀ t ∈ rolled, t.Exact 4294967295) ∧
      Amount.StaysInRange (rolled.map RolledTerm.value) ∧ Amount.StaysInRange [2] ∧
      (Amount.weight (rolled.map RolledTerm.value) : Int) ≤ Amount.greatest ∧
      rolled.reverse.Perm rolled ∧
      ∃ o, (resolve Script.source config request ⟨[6, 6, 5, 2, 3], 0⟩).1 = .ok o ∧
        o.total.toInt = (rolled.map RolledTerm.worth).sum ∧ o.total.toInt = 19 + -3 + 3 + 2 ∧
        ∃ evaluation, Evaluation.of config rolled.reverse 0 = .ok evaluation ∧
          evaluation.total = o.total := by
  intro request config f rolled
  have hfaces := Script.source_fair.showsFaces
  have hprepare : prepare config request = .ok (config, f) := by decide
  have hmechanic : config.mechanic ≠ .dicePool := by decide
  have hvalues : Amount.StaysInRange (rolled.map RolledTerm.value) := by decide
  have hamounts : Amount.StaysInRange [2] := by decide
  have hweight : (Amount.weight (rolled.map RolledTerm.value) : Int) ≤ Amount.greatest := by decide
  have hworth : ((rolled.filter fun t => t.term.origin ≠ .netModifier).map RolledTerm.worth).sum =
      19 + -3 + 3 := by decide
  have h : ∃ o, (resolve Script.source config request ⟨[6, 6, 5, 2, 3], 0⟩).1 = .ok o :=
    ⟨⟨"2d6-1d4+3+2", 21, none, rolled, "2d6 [[6+6+5], 2] -1d4 [3] +3 +2 Str = 21", 1, 0, []⟩,
      by decide⟩
  obtain ⟨o, ho⟩ := h
  obtain ⟨hexact, -, htotal⟩ := resolve_exact hfaces hprepare ⟨[6, 6, 5, 2, 3], 0⟩
  obtain ⟨-, -, hsum, hall, horder⟩ := htotal o ho hmechanic
  refine ⟨hfaces, hprepare, hmechanic, hexact, hvalues, hamounts, hweight,
    List.reverse_perm rolled, o, ho, hsum hvalues, ?_, horder hweight _ (List.reverse_perm rolled)⟩
  rw [(hall hvalues hamounts).2 (by decide), hworth]
  rfl

/-- The least amount as the only whole number: neither total stops, and still the total is not the
exact sum of what was rolled and the whole number. -/
theorem total_not_exact_at_least :
    let request : Request := ⟨some "1d6", [⟨"Doom", .integer Int64.minValue⟩], none, none⟩
    Script.source.ShowsFaces ∧
      ∃ o, (resolve Script.source {} request ⟨[3], 0⟩).1 = .ok o ∧
        Amount.StaysInRange [Int64.minValue] ∧
        Amount.StaysInRange (o.rolledTerms.map RolledTerm.value) ∧
        o.total.toInt ≠ ((o.rolledTerms.filter fun t => t.term.origin ≠ .netModifier).map
          RolledTerm.worth).sum + Amount.exactSum [Int64.minValue] :=
  ⟨Script.source_fair.showsFaces,
    ⟨"1d6-9223372036854775807", -9223372036854775804, none,
      [⟨.dice .plus 1 6, .dice [⟨[3], false⟩]⟩,
        ⟨⟨.minus, .constant 9223372036854775807, .netModifier⟩, .constant (-9223372036854775807)⟩],
      "1d6 [3] -9223372036854775808 Doom = -9223372036854775804", 0, 0, []⟩,
    by decide, by decide, by decide, by decide⟩

end Tabletop
