import Mathlib.Algebra.BigOperators.Ring.Finset
import Mathlib.Algebra.Order.BigOperators.Group.List
import Tabletop.Proofs.Dice.Shape
import Tabletop.Proofs.Formula.RoundTrip
import Tabletop.Proofs.Total
import Tabletop.Proofs.Verdict

/-!
# The value of rolled dice

Dice are added up in words. With few enough dice of a supported size and a source that shows faces
of its dice, the sums are those of the natural numbers, however often the dice explode.

* `DieSource.ShowsFaces` — a die shows a face between one and its sides.
* `faceSum` — the faces shown, added up; `Amount.AddsExactly` — sums of words that do not wrap.
* `RolledTerm.worth` — what a rolled term counts for, in exact numbers.
* `Formula.toInt_value_of_mem_roll` — the value of a rolled term is that number.
-/

namespace Tabletop

/-! ## Faces -/

/-- A die with sides shows a face between one and their number. -/
def DieSource.ShowsFaces {σ : Type} (source : DieSource σ) : Prop :=
  ∀ s sides, 1 ≤ sides.toNat →
    1 ≤ (source.roll s sides).1.toNat ∧ (source.roll s sides).1.toNat ≤ sides.toNat

theorem DieSource.Fair.showsFaces {σ : Type} {source : DieSource σ} (h : source.Fair) :
    source.ShowsFaces := by
  intro s sides hsides
  obtain ⟨hone, hle | heq⟩ := h s sides
  · exact ⟨UInt32.le_iff_toNat_le.mp hone, UInt32.le_iff_toNat_le.mp hle⟩
  · rw [heq]
    exact ⟨Nat.le_refl 1, hsides⟩

/-- The faces of a term's dice lie between one and their sides. -/
def RolledTerm.FacesInRange (t : RolledTerm) : Prop :=
  ∀ sides, t.sides? = some sides → 1 ≤ sides.toNat →
    ∀ face ∈ t.faces, 1 ≤ face.toNat ∧ face.toNat ≤ sides.toNat

section Rolling

variable {σ : Type} {source : DieSource σ} (hsource : source.ShowsFaces) (explosions : Explosions)

include hsource

theorem DieSource.ShowsFaces.of_mem_draw {sides : UInt32} (hsides : 1 ≤ sides.toNat) (n : Nat)
    (s : σ) : ∀ face ∈ (source.draw (List.replicate n sides) s).1,
      1 ≤ face.toNat ∧ face.toNat ≤ sides.toNat := by
  induction n generalizing s with
  | zero => exact nofun
  | succ n ih =>
    rw [List.replicate_succ, draw_cons, List.forall_mem_cons]
    exact ⟨hsource s sides hsides, ih _⟩

theorem rollTerm_facesInRange (t : Term) (s : σ) :
    (rollTerm source explosions t s).1.FacesInRange := by
  -- what a term shows is what it drew, and it drew dice of its own size only
  intro sides hsides hone face hface
  rw [RolledTerm.sides?, rollTerm_term] at hsides
  cases hkind : t.kind with
  | constant value => simp [Term.sides?, hkind] at hsides
  | dice count sides' =>
    obtain rfl : sides' = sides := by simpa [Term.sides?, hkind] using hsides
    have hdraw := rollTerm_draw source explosions t s
    rw [RolledTerm.asked_of_dice (by rw [rollTerm_term, hkind])] at hdraw
    refine hsource.of_mem_draw hone (rollTerm source explosions t s).1.faces.length s face ?_
    rwa [hdraw]

theorem rollTerms_facesInRange (ts : List Term) (s : σ) :
    ∀ t ∈ (rollTerms source explosions ts s).1, t.FacesInRange := by
  induction ts generalizing s with
  | nil => exact nofun
  | cons t ts ih =>
    rw [rollTerms_cons, List.forall_mem_cons]
    exact ⟨rollTerm_facesInRange hsource explosions t s, ih _⟩

end Rolling

/-- The faces shown, added up. -/
def faceSum (faces : List UInt32) : Nat :=
  (faces.map UInt32.toNat).sum

@[simp] theorem faceSum_append (xs ys : List UInt32) :
    faceSum (xs ++ ys) = faceSum xs + faceSum ys := by
  simp [faceSum]

theorem faceSum_le {faces : List UInt32} {n : Nat} (h : ∀ face ∈ faces, face.toNat ≤ n) :
    faceSum faces ≤ faces.length * n := by
  have hsum := List.sum_le_card_nsmul (faces.map UInt32.toNat) n (List.forall_mem_map.mpr h)
  rwa [List.length_map, smul_eq_mul] at hsum

theorem length_le_faceSum {faces : List UInt32} (h : ∀ face ∈ faces, 1 ≤ face.toNat) :
    faces.length ≤ faceSum faces := by
  have hsum := List.card_nsmul_le_sum (faces.map UInt32.toNat) 1 (List.forall_mem_map.mpr h)
  rwa [List.length_map, smul_eq_mul, Nat.mul_one] at hsum

theorem faceSum_flatMap_rolls (dice : List RolledDie) :
    faceSum (dice.flatMap RolledDie.rolls) = (dice.map fun die => faceSum die.rolls).sum := by
  induction dice with
  | nil => rfl
  | cons die dice ih => rw [List.flatMap_cons, faceSum_append, ih, List.map_cons, List.sum_cons]

/-! ## Sums of words -/

namespace Amount

theorem toInt_ofWord (n : UInt32) : (ofWord n).toInt = n.toNat := by
  have hn := n.toNat_lt
  exact Int64.toInt_ofNat_of_lt (by omega)

theorem toInt_foldl_add {amounts : List Amount} {start : Amount} (hstart : 0 ≤ start.toInt)
    (hnonneg : ∀ a ∈ amounts, 0 ≤ a.toInt) (h : start.toInt + exactSum amounts ≤ greatest) :
    (amounts.foldl (· + ·) start).toInt = start.toInt + exactSum amounts := by
  induction amounts generalizing start with
  | nil => rw [List.foldl_nil, exactSum_nil, Int.add_zero]
  | cons a rest ih =>
    obtain ⟨ha, hrest⟩ := List.forall_mem_cons.mp hnonneg
    have hsum : 0 ≤ exactSum rest := List.sum_nonneg (List.forall_mem_map.mpr hrest)
    rw [exactSum_cons, greatest] at h
    have hadd : (start + a).toInt = start.toInt + a.toInt := by
      rw [Int64.toInt_add]
      exact Int.bmod_eq_of_le (by omega) (by omega)
    have hnext : (start + a).toInt + exactSum rest ≤ greatest := by
      rw [hadd, greatest]
      omega
    rw [List.foldl_cons, ih (by omega) hrest hnext, hadd, exactSum_cons, Int.add_assoc]

/-- Added as words from the left, amounts have their exact sum at every step. -/
def AddsExactly (amounts : List Amount) : Prop :=
  ∀ front, front <+: amounts → (front.foldl (· + ·) (0 : Amount)).toInt = exactSum front

/-- Amounts that are not negative are added exactly as long as their sum is an amount. -/
theorem addsExactly_of_nonneg {amounts : List Amount} (hnonneg : ∀ a ∈ amounts, 0 ≤ a.toInt)
    (h : exactSum amounts ≤ greatest) : AddsExactly amounts := by
  rintro front ⟨rest, rfl⟩
  obtain ⟨hfront, hrest⟩ := List.forall_mem_append.mp hnonneg
  have hzero : (0 : Amount).toInt = 0 := rfl
  have hsum : 0 ≤ exactSum rest := List.sum_nonneg (List.forall_mem_map.mpr hrest)
  rw [exactSum_append] at h
  rw [toInt_foldl_add (Int.le_of_eq hzero.symm) hfront (by omega), hzero, Int.zero_add]

theorem AddsExactly.toInt_foldl {amounts : List Amount} (h : AddsExactly amounts) :
    (amounts.foldl (· + ·) (0 : Amount)).toInt = exactSum amounts :=
  h amounts (List.prefix_refl amounts)

theorem exactSum_map_ofWord (faces : List UInt32) :
    exactSum (faces.map ofWord) = faceSum faces := by
  rw [exactSum, List.map_map, faceSum, Nat.cast_list_sum, List.map_map]
  exact congrArg List.sum (List.map_congr_left fun face _ => toInt_ofWord face)

/-- Faces are added exactly as long as their sum is an amount. -/
theorem addsExactly_map_ofWord {faces : List UInt32} (h : (faceSum faces : Int) ≤ greatest) :
    AddsExactly (faces.map ofWord) := by
  refine addsExactly_of_nonneg ?_ ?_
  · refine List.forall_mem_map.mpr fun face _ => ?_
    rw [toInt_ofWord]
    exact Int.natCast_nonneg _
  · rwa [exactSum_map_ofWord]

end Amount

/-- The faces of a die add up exactly as long as their sum is an amount. -/
theorem RolledDie.toInt_total {die : RolledDie}
    (h : (faceSum die.rolls : Int) ≤ Amount.greatest) :
    die.total.toInt = faceSum die.rolls := by
  rw [total, (Amount.addsExactly_map_ofWord h).toInt_foldl, Amount.exactSum_map_ofWord]

section Dice

variable {dice : List RolledDie}
  (h : (faceSum (dice.flatMap RolledDie.rolls) : Int) ≤ Amount.greatest)

theorem faceSum_rolls_le {die : RolledDie} (hmem : die ∈ dice) :
    faceSum die.rolls ≤ faceSum (dice.flatMap RolledDie.rolls) := by
  rw [faceSum_flatMap_rolls]
  exact List.single_le_sum (fun _ _ => Nat.zero_le _) _ (List.mem_map_of_mem hmem)

include h

/-- Dice that together show an amount each have an exact total. -/
theorem RolledDie.toInt_total_of_mem {die : RolledDie} (hmem : die ∈ dice) :
    die.total.toInt = faceSum die.rolls := by
  have hle := faceSum_rolls_le hmem
  exact toInt_total (by omega)

theorem exactSum_map_total :
    Amount.exactSum (dice.map RolledDie.total) = faceSum (dice.flatMap RolledDie.rolls) := by
  rw [Amount.exactSum, List.map_map, faceSum_flatMap_rolls, Nat.cast_list_sum, List.map_map]
  exact congrArg List.sum (List.map_congr_left fun die => RolledDie.toInt_total_of_mem h)

/-- The totals of such dice are added exactly. -/
theorem addsExactly_map_total : Amount.AddsExactly (dice.map RolledDie.total) := by
  refine Amount.addsExactly_of_nonneg ?_ ?_
  · refine List.forall_mem_map.mpr fun die hmem => ?_
    rw [RolledDie.toInt_total_of_mem h hmem]
    exact Int.natCast_nonneg _
  · rwa [exactSum_map_total h]

theorem toInt_foldl_total :
    ((dice.map RolledDie.total).foldl (· + ·) (0 : Amount)).toInt =
      faceSum (dice.flatMap RolledDie.rolls) := by
  rw [(addsExactly_map_total h).toInt_foldl, exactSum_map_total h]

end Dice

/-- The value of dice is the sum of their faces with the sign of their term, as long as that sum is
an amount. -/
theorem RolledTerm.toInt_value_of_dice {t : RolledTerm} {dice : List RolledDie}
    (hresult : t.result = .dice dice) (h : (faceSum t.faces : Int) ≤ Amount.greatest) :
    t.value.toInt = t.term.sign.signed (faceSum t.faces) := by
  have hdice : t.dice = dice := by rw [RolledTerm.dice, hresult]
  rw [faces, hdice] at h ⊢
  have hsum := toInt_foldl_total h
  rw [value, hresult]
  dsimp only
  rw [Sign.toInt_apply, hsum]
  intro _ hleast
  rw [hleast] at hsum
  have : Int64.minValue.toInt = Amount.least := rfl
  rw [this, Amount.least] at hsum
  omega

/-! ## Rolled terms -/

/-- What a term counts for when its dice show some faces: the constant, or the sum of the faces,
with the sign of the term. -/
def Term.worth (t : Term) (faces : List UInt32) : Int :=
  match t.kind with
  | .constant value => t.sign.signed value.toInt
  | .dice .. => t.sign.signed (faceSum faces)

section Kinds

variable {t : Term}

theorem Term.worth_of_constant {value : Amount} (h : t.kind = .constant value)
    (faces : List UInt32) : t.worth faces = t.sign.signed value.toInt := by
  rw [worth, h]

theorem Term.worth_of_dice {count sides : UInt32} (h : t.kind = .dice count sides)
    (faces : List UInt32) : t.worth faces = t.sign.signed (faceSum faces) := by
  rw [worth, h]

end Kinds

/-- What a rolled term counts for, in exact numbers. -/
def RolledTerm.worth (t : RolledTerm) : Int :=
  t.term.worth t.faces

theorem TermKind.InRange.hasValue {t : Term} (h : t.kind.InRange) : t.HasValue := by
  intro _ hleast
  rw [hleast] at h
  have hnonneg : 0 ≤ Int64.minValue.toInt := h
  exact absurd hnonneg (by decide)

/-- A die shows one face and at most as many explosions as are allowed. -/
theorem RolledDie.Chain.length_rolls_le {explosions : Explosions} {sides : UInt32}
    {die : RolledDie} (h : die.Chain explosions sides) :
    die.rolls.length ≤ explosions.cap.toNat + 1 := by
  obtain ⟨before, last, hrolls, hlength, -⟩ := h
  rw [hrolls, List.length_append, List.length_singleton]
  omega

theorem length_flatMap_rolls_le {dice : List RolledDie} {n : Nat}
    (h : ∀ die ∈ dice, die.rolls.length ≤ n) :
    (dice.flatMap RolledDie.rolls).length ≤ dice.length * n := by
  have hsum := List.sum_le_card_nsmul (dice.map fun die => die.rolls.length) n
    (List.forall_mem_map.mpr h)
  rwa [List.length_map, smul_eq_mul, ← List.length_flatMap] at hsum

/-- Dice few enough and of a supported size show no more than the cap lets them. -/
theorem RolledTerm.Fits.faceSum_le_of_cap {explosions : Explosions} {t : RolledTerm}
    (hfits : t.Fits explosions) (hrange : t.term.kind.InRange) (hfaces : t.FacesInRange) :
    faceSum t.faces ≤ 100 * 1000 * (explosions.cap.toNat + 1) := by
  cases hkind : t.term.kind with
  | constant value =>
    obtain ⟨signed, hresult, -⟩ := (fits_of_constant hkind).mp hfits
    have hnone : t.faces = [] := by
      rw [faces, dice, hresult]
      rfl
    rw [hnone]
    exact Nat.zero_le _
  | dice count sides =>
    obtain ⟨dice, hresult, hlength, hchain⟩ := (fits_of_dice hkind).mp hfits
    rw [hkind] at hrange
    obtain ⟨⟨-, hcount⟩, hone, hsides⟩ := hrange
    have hdie := hfaces sides (by rw [sides?, Term.sides?, hkind]) (by omega)
    have hrolls : t.faces.length ≤ count.toNat * (explosions.cap.toNat + 1) := by
      rw [faces, RolledTerm.dice, hresult, ← hlength]
      exact length_flatMap_rolls_le fun die hmem => (hchain die hmem).length_rolls_le
    -- at most a hundred dice of a thousand sides
    calc faceSum t.faces
      _ ≤ t.faces.length * sides.toNat :=
        Tabletop.faceSum_le fun face hface => (hdie face hface).2
      _ ≤ count.toNat * (explosions.cap.toNat + 1) * sides.toNat := Nat.mul_le_mul_right _ hrolls
      _ ≤ 100 * (explosions.cap.toNat + 1) * 1000 :=
        Nat.mul_le_mul (Nat.mul_le_mul_right _ hcount) hsides
      _ = 100 * 1000 * (explosions.cap.toNat + 1) := Nat.mul_right_comm ..

/-- Dice few enough and of a supported size add up to an amount, however often they explode. -/
theorem RolledTerm.Fits.faceSum_le {explosions : Explosions} {t : RolledTerm}
    (hfits : t.Fits explosions) (hrange : t.term.kind.InRange) (hfaces : t.FacesInRange) :
    (faceSum t.faces : Int) ≤ Amount.greatest := by
  have hsum := hfits.faceSum_le_of_cap hrange hfaces
  have hcap := explosions.cap.toNat_lt
  rw [Amount.greatest]
  omega

/-- **A rolled term has the value it counts for**: no sum of words leaves the range. -/
theorem RolledTerm.Fits.toInt_value {explosions : Explosions} {t : RolledTerm}
    (hfits : t.Fits explosions) (hrange : t.term.kind.InRange) (hfaces : t.FacesInRange) :
    t.value.toInt = t.worth := by
  cases hkind : t.term.kind with
  | constant value =>
    obtain ⟨signed, hresult, hsigned⟩ := (fits_of_constant hkind).mp hfits
    rw [RolledTerm.value, hresult, worth, Term.worth_of_constant hkind]
    exact hsigned
  | dice count sides =>
    obtain ⟨dice, hresult, -⟩ := (fits_of_dice hkind).mp hfits
    rw [toInt_value_of_dice hresult (hfits.faceSum_le hrange hfaces), worth,
      Term.worth_of_dice hkind]

/-- A rolled constant that has the value it counts for has the amount that its term shows. -/
theorem RolledTerm.value_eq_of_constantValue? {t : RolledTerm} (hworth : t.value.toInt = t.worth)
    (hrange : t.term.kind.InRange) {value : Amount} (h : t.term.constantValue? = some value) :
    t.value = value := by
  cases hkind : t.term.kind with
  | dice count sides => simp [Term.constantValue?, hkind] at h
  | constant magnitude =>
    have hsigned : (t.term.sign.apply magnitude).toInt = t.value.toInt := by
      rw [hworth, worth, Term.worth_of_constant hkind, Sign.toInt_apply]
      exact fun hminus hleast => hrange.hasValue hminus (hleast ▸ hkind)
    rw [Term.constantValue?, hkind] at h
    exact (Int64.toInt_inj.mp hsigned).symm.trans (Option.some.inj h)

/-- The value of a rolled term is what it counts for, whatever the source and the explosions. -/
theorem Formula.toInt_value_of_mem_roll {σ : Type} {source : DieSource σ}
    (hsource : source.ShowsFaces) (explosions : Explosions) {f : Formula}
    (hrange : ∀ t ∈ f.terms, t.kind.InRange) (s : σ) {t : RolledTerm}
    (ht : t ∈ (f.roll source explosions s).1) : t.value.toInt = t.worth := by
  have hfits := rollTerms_fits source explosions
    (fun t ht => TermKind.InRange.hasValue (hrange t ht)) s t ht
  exact hfits.toInt_value (hrange t.term (term_mem source explosions ht))
    (rollTerms_facesInRange hsource explosions f.terms s t ht)

end Tabletop
