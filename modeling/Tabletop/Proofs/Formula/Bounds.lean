import Tabletop.Proofs.Dice.Value
import Tabletop.Proofs.Formula.Concatenation

/-!
# Bounds of a total

The least and the greatest total of a formula add up what its terms count for at least and at most,
stopping at the ends of the range as a summed roll does. Step by step a roll stays between the two.

* `Term.facesOf` — the dice of a term, each showing the face that its sides and its sign tell.
* `Term.toInt_range` — a term counts for least and for most with such faces.
* `RolledTerm.Fits.value_mem_range` — a term that does not explode counts for something in between.
* `Formula.faces_of_script` — a script of such faces is rolled as it is written.
* `Formula.total_bounds` — every total lies between the least and the greatest, and both occur.
-/

namespace Tabletop

/-! ## Faces told by the sign -/

/-- The face with which a die counts for least: its highest when it is subtracted. -/
def Sign.leastFace : Sign → UInt32 → UInt32
  | plus, _ => 1
  | minus, sides => sides

/-- The face with which a die counts for most. -/
def Sign.greatestFace : Sign → UInt32 → UInt32
  | plus, sides => sides
  | minus, _ => 1

/-- A choice of a face for a die of each sign and size. -/
def Sign.ChoosesFaces (choice : Sign → UInt32 → UInt32) : Prop :=
  ∀ sign sides, 1 ≤ sides.toNat →
    1 ≤ (choice sign sides).toNat ∧ (choice sign sides).toNat ≤ sides.toNat

theorem Sign.choosesFaces_leastFace : ChoosesFaces leastFace := by
  intro sign sides hsides
  cases sign with
  | plus => exact ⟨Nat.le_refl 1, hsides⟩
  | minus => exact ⟨hsides, Nat.le_refl _⟩

theorem Sign.choosesFaces_greatestFace : ChoosesFaces greatestFace := by
  intro sign sides hsides
  cases sign with
  | plus => exact ⟨hsides, Nat.le_refl _⟩
  | minus => exact ⟨Nat.le_refl 1, hsides⟩

namespace Term

/-- The sizes of the dice of a term. -/
def sizes (t : Term) : List UInt32 :=
  match t.kind with
  | .constant _ => []
  | .dice count sides => List.replicate count.toNat sides

/-- The faces of the dice of a term, each the one chosen for its sign and its sides. -/
def facesOf (choice : Sign → UInt32 → UInt32) (t : Term) : List UInt32 :=
  t.sizes.map (choice t.sign)

variable {t : Term} {value : Amount} {count sides : UInt32}

theorem sizes_of_constant (h : t.kind = .constant value) : t.sizes = [] := by
  rw [sizes, h]

theorem sizes_of_dice (h : t.kind = .dice count sides) :
    t.sizes = List.replicate count.toNat sides := by
  rw [sizes, h]

theorem faceSum_facesOf (h : t.kind = .dice count sides) (choice : Sign → UInt32 → UInt32) :
    faceSum (t.facesOf choice) = count.toNat * (choice t.sign sides).toNat := by
  rw [facesOf, sizes_of_dice h, List.map_replicate, faceSum, List.map_replicate,
    List.sum_replicate, smul_eq_mul]

theorem one_le_of_mem_sizes (hrange : t.kind.InRange) (h : sides ∈ t.sizes) :
    1 ≤ sides.toNat := by
  cases hkind : t.kind with
  | constant value =>
    rw [sizes_of_constant hkind] at h
    cases h
  | dice count sides' =>
    rw [sizes_of_dice hkind] at h
    obtain rfl := List.eq_of_mem_replicate h
    rw [hkind] at hrange
    obtain ⟨-, hsides, -⟩ := hrange
    omega

/-- **A term counts for least and for most** when each of its dice does. -/
theorem toInt_range (hrange : t.kind.InRange) :
    t.range.1.toInt = t.worth (t.facesOf Sign.leastFace) ∧
      t.range.2.toInt = t.worth (t.facesOf Sign.greatestFace) := by
  cases hkind : t.kind with
  | constant value =>
    have hvalue : (t.sign.apply value).toInt = t.sign.signed value.toInt :=
      Sign.toInt_apply fun hminus hleast => TermKind.InRange.hasValue hrange hminus (hleast ▸ hkind)
    rw [worth_of_constant hkind, worth_of_constant hkind, range, hkind]
    exact ⟨hvalue, hvalue⟩
  | dice count sides =>
    rw [hkind] at hrange
    obtain ⟨⟨-, hcount⟩, -, hsides⟩ := hrange
    have hone : (1 : UInt32).toNat = 1 := rfl
    have hproduct : count.toNat * sides.toNat ≤ 100 * 1000 := Nat.mul_le_mul hcount hsides
    have hhigh : (Amount.ofWord count * Amount.ofWord sides).toInt =
        (count.toNat * sides.toNat : Nat) := by
      rw [Int64.toInt_mul, Amount.toInt_ofWord, Amount.toInt_ofWord, ← Int.natCast_mul]
      exact Int.bmod_eq_of_le (by omega) (by omega)
    rw [worth_of_dice hkind, worth_of_dice hkind, faceSum_facesOf hkind, faceSum_facesOf hkind,
      range, hkind]
    cases t.sign with
    | plus =>
      simp only [Sign.signed, Sign.leastFace, Sign.greatestFace, hone, Nat.mul_one]
      exact ⟨Amount.toInt_ofWord count, hhigh⟩
    | minus =>
      simp only [Sign.signed, Sign.leastFace, Sign.greatestFace, hone, Nat.mul_one]
      rw [Int64.toInt_neg, Int64.toInt_neg, hhigh, Amount.toInt_ofWord]
      exact ⟨Int.bmod_eq_of_le (by omega) (by omega), Int.bmod_eq_of_le (by omega) (by omega)⟩

end Term

/-! ## Rolls without explosions -/

namespace RolledTerm.Fits

variable {explosions : Explosions} {t : RolledTerm} (hfits : t.Fits explosions)
  (hoff : ∀ sides, explosions.threshold? sides = none)

include hfits hoff

/-- Without explosions a term shows one face for each of its dice. -/
theorem length_faces : t.faces.length = t.term.sizes.length := by
  cases hkind : t.term.kind with
  | constant value =>
    obtain ⟨signed, hresult, -⟩ := (fits_of_constant hkind).mp hfits
    rw [faces, dice, hresult, Term.sizes_of_constant hkind]
    rfl
  | dice count sides =>
    obtain ⟨dice, hresult, hlength, hchain⟩ := (fits_of_dice hkind).mp hfits
    have hsingle : ∀ die ∈ dice, die.rolls.length = 1 := by
      intro die hmem
      obtain ⟨before, last, hrolls, -, hnone⟩ := hchain die hmem
      rw [hoff sides] at hnone
      rw [hrolls, hnone.1]
      rfl
    rw [Term.sizes_of_dice hkind, List.length_replicate, faces, RolledTerm.dice, hresult]
    dsimp only
    rw [List.length_flatMap, List.map_congr_left hsingle, List.map_const', List.sum_replicate,
      smul_eq_mul, Nat.mul_one, hlength]

/-- It asks for its own dice and no others. -/
theorem asked_eq_sizes : t.asked = t.term.sizes := by
  cases hkind : t.term.kind with
  | constant value => rw [asked_of_constant hkind, Term.sizes_of_constant hkind]
  | dice count sides =>
    rw [asked_of_dice hkind, hfits.length_faces hoff, Term.sizes_of_dice hkind,
      List.length_replicate]

/-- **A term that does not explode counts for something in its range.** -/
theorem value_mem_range (hrange : t.term.kind.InRange) (hfaces : t.FacesInRange) :
    t.term.range.1 ≤ t.value ∧ t.value ≤ t.term.range.2 := by
  obtain ⟨hleast, hgreatest⟩ := Term.toInt_range hrange
  rw [Int64.le_iff_toInt_le, Int64.le_iff_toInt_le, hleast, hgreatest,
    hfits.toInt_value hrange hfaces, worth]
  cases hkind : t.term.kind with
  | constant value =>
    simp only [Term.worth_of_constant hkind]
    exact ⟨Int.le_refl _, Int.le_refl _⟩
  | dice count sides =>
    rw [hkind] at hrange
    obtain ⟨-, hone, -⟩ := hrange
    have hdie := hfaces sides (by rw [sides?, Term.sides?, hkind]) (by omega)
    have hlow := length_le_faceSum fun face hface => (hdie face hface).1
    have hhigh := Tabletop.faceSum_le fun face hface => (hdie face hface).2
    rw [hfits.length_faces hoff, Term.sizes_of_dice hkind, List.length_replicate] at hlow hhigh
    have hword : (1 : UInt32).toNat = 1 := rfl
    simp only [Term.worth_of_dice hkind, Term.faceSum_facesOf hkind]
    -- a subtracted die counts for least when its face is highest
    cases t.term.sign with
    | plus =>
      simp only [Sign.signed, Sign.leastFace, Sign.greatestFace, hword, Nat.mul_one]
      omega
    | minus =>
      simp only [Sign.signed, Sign.leastFace, Sign.greatestFace, hword, Nat.mul_one]
      omega

end RolledTerm.Fits

/-! ## Scripts of chosen faces -/

section Script

variable {choice : Sign → UInt32 → UInt32} (hchoice : Sign.ChoosesFaces choice)

include hchoice

theorem Term.forall₂_facesOf {ts : List Term} (hrange : ∀ t ∈ ts, t.kind.InRange) :
    List.Forall₂ (fun sides face => 1 ≤ face.toNat ∧ face.toNat ≤ sides.toNat)
      (ts.flatMap sizes) (ts.flatMap (facesOf choice)) := by
  induction ts with
  | nil => exact .nil
  | cons t ts ih =>
    obtain ⟨ht, hts⟩ := List.forall_mem_cons.mp hrange
    rw [List.flatMap_cons, List.flatMap_cons]
    refine List.rel_append ?_ (ih hts)
    rw [facesOf, List.forall₂_map_right_iff, List.forall₂_same]
    exact fun sides hsides => hchoice t.sign sides (one_le_of_mem_sizes ht hsides)

namespace Formula

variable {f : Formula} (hrange : ∀ t ∈ f.terms, t.kind.InRange) {explosions : Explosions}
  (hoff : ∀ sides, explosions.threshold? sides = none)

include hrange hoff

/-- **A script of chosen faces is rolled as it is written**: every term shows those chosen for
it. -/
theorem faces_of_script {t : RolledTerm}
    (ht : t ∈ (f.roll Script.source explosions ⟨f.terms.flatMap (Term.facesOf choice), 0⟩).1) :
    t.faces = t.term.facesOf choice := by
  let rolled := (f.roll Script.source explosions ⟨f.terms.flatMap (Term.facesOf choice), 0⟩).1
  have hterm : rolled.map RolledTerm.term = f.terms := f.map_term_roll Script.source explosions _
  have hfits : ∀ t ∈ rolled, t.Fits explosions :=
    rollTerms_fits Script.source explosions (fun t ht => TermKind.InRange.hasValue (hrange t ht)) _
  have hasked : rolled.flatMap RolledTerm.asked = f.terms.flatMap Term.sizes := by
    rw [← hterm, List.flatMap_map]
    exact List.flatMap_congr fun t ht => (hfits t ht).asked_eq_sizes hoff
  have hfaces : rolled.flatMap RolledTerm.faces = f.terms.flatMap (Term.facesOf choice) := by
    have hdraw := rollTerms_draw Script.source explosions f.terms
      ⟨f.terms.flatMap (Term.facesOf choice), 0⟩
    have hself := Script.draw_self (Term.forall₂_facesOf hchoice hrange)
    rw [← hasked] at hself
    exact (congrArg Prod.fst hdraw).symm.trans hself
  -- the faces are the same in all, and each term has as many of them in both
  have hmaps : rolled.map RolledTerm.faces = rolled.map fun t => t.term.facesOf choice := by
    refine List.eq_iff_flatten_eq.mpr ⟨?_, ?_⟩
    · rw [← List.flatMap_def, ← List.flatMap_def, hfaces, ← hterm, List.flatMap_map]
    · rw [List.map_map, List.map_map]
      refine List.map_congr_left fun t ht => ?_
      exact ((hfits t ht).length_faces hoff).trans (List.length_map _).symm
  exact List.map_inj_left.mp hmaps t ht

/-- The total of such a roll adds up what the terms count for with the faces chosen. -/
theorem sumTotal_of_script {bound : Term → Amount}
    (hbound : ∀ t : Term, t.kind.InRange → (bound t).toInt = t.worth (t.facesOf choice)) :
    Evaluation.sumTotal
        (f.roll Script.source explosions ⟨f.terms.flatMap (Term.facesOf choice), 0⟩).1 0 =
      Amount.total 0 (f.terms.map bound) := by
  have hterm := f.map_term_roll Script.source explosions
    ⟨f.terms.flatMap (Term.facesOf choice), 0⟩
  rw [Evaluation.sumTotal]
  conv_rhs => rw [← hterm, List.map_map]
  refine congrArg (Amount.total 0) (List.map_congr_left fun t ht => ?_)
  have hvalue := toInt_value_of_mem_roll Script.source_fair.showsFaces explosions hrange _ ht
  rw [← Int64.toInt_inj, hvalue, RolledTerm.worth, faces_of_script hchoice hrange hoff ht]
  exact (hbound t.term (hrange t.term (term_mem Script.source explosions ht))).symm

end Formula

end Script

/-! ## Modifiers -/

namespace Modifier

variable {policy : BoundsPolicy} {modifiers : List Modifier} {t : Term}

theorem inRange_of_mem_addedTerms {m : Modifier} {index : Nat}
    (h : t ∈ m.addedTerms policy index) : t.kind.InRange := by
  cases m.kind policy with
  | integer amount hvalue =>
    rw [addedTerms_of_integer hvalue] at h
    cases h
  | readable expression f hvalue hread =>
    rw [addedTerms_of_readable hvalue hread] at h
    obtain ⟨t, ht, rfl⟩ := List.mem_map.mp h
    exact (Formula.wellFormed_of_readWith hread).inRange t ht
  | inert expression e hvalue hread =>
    rw [addedTerms_of_inert hvalue hread] at h
    cases h

theorem inRange_of_mem_netTerms (h : t ∈ netTerms modifiers) : t.kind.InRange := by
  rw [netTerms] at h
  cases hnet : net? modifiers with
  | none =>
    rw [hnet] at h
    cases h
  | some net =>
    rw [hnet] at h
    obtain rfl := List.mem_singleton.mp h
    change 0 ≤ net.magnitude.toInt
    rw [Amount.toInt_magnitude]
    omega

end Modifier

/-! ## Every total -/

/-- Without explosions the total of a roll lies between the least and the greatest total. -/
theorem Formula.sumTotal_mem_bounds {σ : Type} {source : DieSource σ} (hsource : source.ShowsFaces)
    {explosions : Explosions} (hoff : ∀ sides, explosions.threshold? sides = none) {f : Formula}
    (hrange : ∀ t ∈ f.terms, t.kind.InRange) (s : σ) :
    f.min ≤ Evaluation.sumTotal (f.roll source explosions s).1 0 ∧
      Evaluation.sumTotal (f.roll source explosions s).1 0 ≤ f.max := by
  have hterm := f.map_term_roll source explosions s
  have hvalue : ∀ t ∈ (f.roll source explosions s).1,
      t.term.range.1 ≤ t.value ∧ t.value ≤ t.term.range.2 := by
    intro t ht
    have hfits := rollTerms_fits source explosions
      (fun t ht => TermKind.InRange.hasValue (hrange t ht)) s t ht
    exact hfits.value_mem_range hoff (hrange t.term (term_mem source explosions ht))
      (rollTerms_facesInRange hsource explosions f.terms s t ht)
  -- the two folds run in step with the one of the roll
  rw [min, max, Evaluation.sumTotal, ← hterm, List.map_map, List.map_map]
  refine ⟨Amount.total_le_total (Int64.le_refl 0) ?_, Amount.total_le_total (Int64.le_refl 0) ?_⟩
  · rw [List.forall₂_map_left_iff, List.forall₂_map_right_iff]
    exact List.forall₂_same.mpr fun t ht => (hvalue t ht).1
  · rw [List.forall₂_map_left_iff, List.forall₂_map_right_iff]
    exact List.forall₂_same.mpr fun t ht => (hvalue t ht).2

/-- Together with modifiers, terms in range stay in range. -/
theorem Formula.inRange_combineWith {policy : BoundsPolicy} {base : Formula}
    (hrange : ∀ t ∈ base.terms, t.kind.InRange) (modifiers : List Modifier) :
    ∀ t ∈ (base.combineWith policy modifiers).terms, t.kind.InRange := by
  intro t ht
  rcases mem_combineWith.mp ht with ht | ⟨index, m, -, ht⟩ | ht
  · exact hrange t ht
  · exact Modifier.inRange_of_mem_addedTerms ht
  · exact Modifier.inRange_of_mem_netTerms ht

/-- **The least and the greatest total are exact.** Formulas that are read, and those combined with
modifiers, have terms in range. With such terms a summed roll without explosions has a total from
the least to the greatest, whatever its dice show and wherever the sums stop at the ends of the
range on the way; and some dice bring it to either. -/
theorem Formula.total_bounds :
    (∀ (policy : BoundsPolicy) (text : String) (f : Formula), readWith policy text = .ok f →
      ∀ t ∈ f.terms, t.kind.InRange) ∧
    (∀ (policy : BoundsPolicy) (base : Formula) (modifiers : List Modifier),
      (∀ t ∈ base.terms, t.kind.InRange) →
      ∀ t ∈ (base.combineChecked policy modifiers).1.terms, t.kind.InRange) ∧
    ∀ (f : Formula) (config : Config) (explosions : Explosions),
      (∀ t ∈ f.terms, t.kind.InRange) →
      (config.mechanic = .rollAndSum ∨ config.mechanic = .custom ∧ f.hasDice = true) →
      (∀ sides, explosions.threshold? sides = none) →
      (∀ {σ : Type} (source : DieSource σ) (s : σ), source.ShowsFaces →
        ∃ evaluation, Evaluation.of config (f.roll source explosions s).1 0 = .ok evaluation ∧
          f.min ≤ evaluation.total ∧ evaluation.total ≤ f.max) ∧
      (∃ faces evaluation,
        Evaluation.of config (f.roll Script.source explosions ⟨faces, 0⟩).1 0 = .ok evaluation ∧
          evaluation.total = f.min) ∧
      ∃ faces evaluation,
        Evaluation.of config (f.roll Script.source explosions ⟨faces, 0⟩).1 0 = .ok evaluation ∧
          evaluation.total = f.max := by
  refine ⟨fun _ _ _ hread => (wellFormed_of_readWith hread).inRange,
    fun _ _ modifiers hbase => inRange_combineWith hbase modifiers, ?_⟩
  intro f config explosions hrange hmechanic hoff
  refine ⟨?_, ?_, ?_⟩
  · intro σ source s hsource
    exact ⟨_, Evaluation.of_eq_ofSum (f.map_term_roll source explosions s) hmechanic 0,
      sumTotal_mem_bounds hsource hoff hrange s⟩
  · exact ⟨_, _, Evaluation.of_eq_ofSum (f.map_term_roll Script.source explosions _) hmechanic 0,
      sumTotal_of_script Sign.choosesFaces_leastFace hrange hoff
        fun t ht => (Term.toInt_range ht).1⟩
  · exact ⟨_, _, Evaluation.of_eq_ofSum (f.map_term_roll Script.source explosions _) hmechanic 0,
      sumTotal_of_script Sign.choosesFaces_greatestFace hrange hoff
        fun t ht => (Term.toInt_range ht).2⟩

/-- A constant near the greatest amount: with its highest faces the roll stops there, and comes back
by the die that is subtracted. -/
theorem Formula.total_bounds_stopped :
    let f : Formula := ⟨[⟨.plus, .constant 9223372036854775804, .base⟩, .dice .plus 1 6,
      .dice .minus 1 4]⟩
    (∀ t ∈ f.terms, t.kind.InRange) ∧ Script.source.ShowsFaces ∧
      f.min = 9223372036854775801 ∧ f.max = 9223372036854775806 ∧
      (∃ evaluation, Evaluation.of {} (f.roll Script.source .off ⟨[5, 2], 0⟩).1 0 =
        .ok evaluation ∧ f.min ≤ evaluation.total ∧ evaluation.total ≤ f.max) ∧
      ∃ faces evaluation, Evaluation.of {} (f.roll Script.source .off ⟨faces, 0⟩).1 0 =
        .ok evaluation ∧ evaluation.total = f.max := by
  intro f
  have hrange : ∀ t ∈ f.terms, t.kind.InRange := by decide
  have hfaces := Script.source_fair.showsFaces
  obtain ⟨hbounds, -, hgreatest⟩ := total_bounds.2.2 f {} .off hrange (.inl rfl) fun _ => rfl
  exact ⟨hrange, hfaces, by decide, by decide, hbounds Script.source _ hfaces, hgreatest⟩

end Tabletop
