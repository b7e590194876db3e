import Tabletop.Proofs.Formula.Bounds
import Tabletop.Proofs.Modifier.Inert
import Tabletop.Proofs.Ranked

/-!
# The summary of an outcome

Beside its rolled terms an outcome tells how many dice were critical or fumbled, and which sizes of
dice were capped. Each of these is worked out by itself; here they are tied to the dice rolled.

* `RolledDie.Obeys` — what a die shows under a configuration.
* `Formula.obeys_of_mem_roll` — every die of a roll obeys the configuration.
* `countP_baseDice` — the dice that critical rolls and fumbles are counted among.
* `largestFirst_ranking`, `mem_cappedSizes` — the capped sizes, largest first.
* `outcome_summary` — the summary of an outcome is that of its rolled terms.
-/

namespace Tabletop

/-! ## Dice under a configuration -/

/-- A configuration that can be used has no threshold of zero. -/
theorem Config.explodeThreshold_ne_of_validate {config : Config} (h : config.validate = .ok ()) :
    config.explodeThreshold ≠ some 0 := by
  intro hzero
  rw [validate, if_pos hzero] at h
  cases h

/-- The roll from which a die of some sides explodes: the configured one, but not above its highest
face. -/
def Config.threshold (config : Config) (sides : UInt32) : Nat :=
  min (config.explodeThreshold.getD sides).toNat sides.toNat

theorem Config.toNat_thresholdFor (config : Config) (sides : UInt32) :
    (config.thresholdFor sides).toNat = config.threshold sides := by
  rw [thresholdFor, threshold]
  cases config.explodeThreshold with
  | none => exact (min_self sides.toNat).symm
  | some threshold =>
    rw [Option.getD_some]
    dsimp only
    split
    · next hle => exact (min_eq_left (UInt32.le_iff_toNat_le.mp hle)).symm
    · next hle => exact (min_eq_right (by rw [UInt32.le_iff_toNat_le] at hle; omega)).symm

/-- Under a configuration that can be used, the threshold of a die is one of its faces. -/
theorem Config.threshold_mem_faces {config : Config} (h : config.validate = .ok ())
    {sides : UInt32} (hsides : 1 ≤ sides.toNat) :
    1 ≤ config.threshold sides ∧ config.threshold sides ≤ sides.toNat := by
  refine ⟨le_min ?_ hsides, min_le_right _ _⟩
  cases ht : config.explodeThreshold with
  | none => exact hsides
  | some threshold =>
    have hne : threshold ≠ 0 := fun hzero => explodeThreshold_ne_of_validate h (hzero ▸ ht)
    exact Nat.pos_of_ne_zero fun hzero => hne (UInt32.toNat_inj.mp hzero)

/-- What a die of some sides shows under a configuration. -/
structure RolledDie.Obeys (config : Config) (sides : UInt32) (die : RolledDie) : Prop where
  /-- it was rolled -/
  rolled : die.rolls ≠ []
  /-- every face is one of the die's -/
  inRange : ∀ face ∈ die.rolls, 1 ≤ face.toNat ∧ face.toNat ≤ sides.toNat
  /-- a die that does not explode shows its natural roll alone -/
  alone : config.exploding = false → die.explosions = 0 ∧ die.capped = false
  /-- the threshold is one of the die's faces -/
  threshold : 1 ≤ config.threshold sides ∧ config.threshold sides ≤ sides.toNat
  /-- a die that explodes goes on while it shows the threshold or more; it ends there only when the
  cap stops it, after as many explosions as the cap allows -/
  chain : config.exploding = true → ∃ before last, die.rolls = before ++ [last] ∧
    (∀ face ∈ before, config.threshold sides ≤ face.toNat) ∧
    (config.threshold sides ≤ last.toNat ↔ die.capped = true) ∧
    (die.capped = true → die.explosions = config.explosionCap.toNat) ∧
    (die.capped = false → last ≠ sides)

theorem RolledDie.Chain.obeys {config : Config} {sides : UInt32} {die : RolledDie}
    (h : die.Chain config.explosions sides) (hvalid : config.validate = .ok ())
    (hsides : 1 ≤ sides.toNat)
    (hfaces : ∀ face ∈ die.rolls, 1 ≤ face.toNat ∧ face.toNat ≤ sides.toNat) :
    die.Obeys config sides := by
  obtain ⟨before, last, hrolls, -, hchain⟩ := h
  have hexplosions : die.explosions = before.length := by
    rw [RolledDie.explosions, hrolls, List.length_append, List.length_singleton,
      Nat.add_sub_cancel]
  have hthreshold := Config.threshold_mem_faces hvalid hsides
  rw [Config.explosions] at hchain
  refine ⟨hrolls ▸ List.append_ne_nil_of_right_ne_nil _ (List.cons_ne_nil _ _), hfaces, ?_,
    hthreshold, ?_⟩
  · intro hoff
    simp only [hoff, Bool.false_eq_true, if_false] at hchain
    rw [hexplosions, hchain.1]
    exact ⟨rfl, hchain.2⟩
  · intro hon
    simp only [hon, if_true, UInt32.le_iff_toNat_le, Config.toNat_thresholdFor] at hchain
    obtain ⟨hbefore, hcapped, hfull⟩ := hchain
    refine ⟨before, last, hrolls, hbefore, hcapped.symm, ?_, ?_⟩
    · intro hc
      rw [hexplosions, hfull hc]
    · -- the highest face reaches every threshold
      rintro hc rfl
      rw [hcapped.mpr hthreshold.2] at hc
      cases hc

/-- **Every die of a roll obeys the configuration**, and belongs to a term that names its sides. -/
theorem Formula.obeys_of_mem_roll {σ : Type} {source : DieSource σ} (hsource : source.ShowsFaces)
    {config : Config} (hvalid : config.validate = .ok ()) {f : Formula}
    (hrange : ∀ t ∈ f.terms, t.kind.InRange) {s : σ} {t : RolledTerm}
    (ht : t ∈ (f.roll source config.explosions s).1) {die : RolledDie} (hdie : die ∈ t.dice) :
    ∃ sides, t.sides? = some sides ∧ 2 ≤ sides.toNat ∧ die.Obeys config sides := by
  have hfits := rollTerms_fits source config.explosions
    (fun t ht => TermKind.InRange.hasValue (hrange t ht)) s t ht
  cases hkind : t.term.kind with
  | constant value =>
    obtain ⟨signed, hresult, -⟩ := (RolledTerm.fits_of_constant hkind).mp hfits
    rw [RolledTerm.dice, hresult] at hdie
    cases hdie
  | dice count sides =>
    obtain ⟨dice, hresult, -, hchain⟩ := (RolledTerm.fits_of_dice hkind).mp hfits
    have hsides : t.sides? = some sides := by rw [RolledTerm.sides?, Term.sides?, hkind]
    have hterm := hrange t.term (term_mem source config.explosions ht)
    rw [hkind] at hterm
    obtain ⟨-, htwo, -⟩ := hterm
    have hone : 1 ≤ sides.toNat := Nat.le_of_succ_le htwo
    refine ⟨sides, hsides, htwo, RolledDie.Chain.obeys ?_ hvalid hone fun face hface => ?_⟩
    · rw [RolledTerm.dice, hresult] at hdie
      exact hchain die hdie
    · exact rollTerms_facesInRange hsource config.explosions f.terms s t ht sides hsides hone face
        (List.mem_flatMap.mpr ⟨die, hdie, hface⟩)

/-! ## Critical rolls and fumbles -/

/-- The rolled terms of the formula itself that are added. -/
def addedBaseTerms (rolled : List RolledTerm) : List RolledTerm :=
  rolled.filter fun t => t.term.origin = .base ∧ t.term.sign = .plus

/-- Counting dice with their sides is counting dice term by term. -/
theorem countP_baseDice {rolled : List RolledTerm} {p : UInt32 × RolledDie → Bool}
    {q : RolledTerm → RolledDie → Bool}
    (h : ∀ t ∈ rolled, ∀ die ∈ t.dice, ∃ sides, t.sides? = some sides ∧ p (sides, die) = q t die) :
    (baseDice rolled).countP p =
      ((addedBaseTerms rolled).map fun t => t.dice.countP (q t)).sum := by
  rw [baseDice, List.countP_flatMap]
  refine congrArg List.sum (List.map_congr_left fun t ht => ?_)
  have hmem : t ∈ rolled := List.mem_of_mem_filter ht
  rw [Function.comp_apply]
  cases hsides : t.sides? with
  | none =>
    have hdice : t.dice = [] := by
      refine List.eq_nil_iff_forall_not_mem.mpr fun die hdie => ?_
      obtain ⟨sides, hsome, -⟩ := h t hmem die hdie
      rw [hsides] at hsome
      cases hsome
    rw [hdice]
    rfl
  | some sides =>
    rw [List.countP_map]
    refine List.countP_congr fun die hdie => ?_
    obtain ⟨sides', hsome, hpq⟩ := h t hmem die hdie
    obtain rfl := Option.some.inj (hsides.symm.trans hsome)
    rw [Function.comp_apply, hpq]

theorem length_baseDice_le (rolled : List RolledTerm) :
    (baseDice rolled).length ≤ (rolled.flatMap RolledTerm.dice).length := by
  rw [baseDice, List.length_flatMap, List.length_flatMap]
  refine (List.sum_le_sum (g := fun t => t.dice.length) fun t _ => ?_).trans
    ((List.filter_sublist.map _).sum_le_sum fun _ _ => Nat.zero_le _)
  cases t.sides? with
  | none => exact Nat.zero_le _
  | some sides => exact (List.length_map _).le

section Extremes

variable {rolled : List RolledTerm} {config : Config}
  (hdice : ∀ t ∈ rolled, ∀ die ∈ t.dice,
    ∃ sides, t.sides? = some sides ∧ 2 ≤ sides.toNat ∧ die.Obeys config sides)
  (hcount : (rolled.flatMap RolledTerm.dice).length < 2 ^ 32)

include hdice hcount

/-- The critical dice are those that show their highest face first. -/
theorem toNat_criticalCount : (criticalCount rolled).toNat =
    ((addedBaseTerms rolled).map fun t =>
      t.dice.countP fun die => die.rolls.head? = t.sides?).sum := by
  have hle := List.countP_le_length (p := fun q => q.2.isNaturalMax q.1)
    (l := baseDice rolled)
  rw [criticalCount, UInt32.toNat_ofNat_of_lt' (lt_of_le_of_lt
    (hle.trans (length_baseDice_le rolled)) hcount)]
  refine countP_baseDice fun t ht die hdie => ?_
  obtain ⟨sides, hsides, -, hdie⟩ := hdice t ht die hdie
  refine ⟨sides, hsides, ?_⟩
  obtain ⟨first, rest, hrolls⟩ := List.exists_cons_of_ne_nil hdie.rolled
  simp [RolledDie.isNaturalMax, RolledDie.natural, hrolls, hsides, Bool.beq_eq_decide_eq]

/-- The fumbled dice are those that show a one first. -/
theorem toNat_fumbleCount : (fumbleCount rolled).toNat =
    ((addedBaseTerms rolled).map fun t =>
      t.dice.countP fun die => die.rolls.head? = some 1).sum := by
  have hle := List.countP_le_length
    (p := fun q => !q.2.isNaturalMax q.1 && q.2.isNaturalMin)
    (l := baseDice rolled)
  rw [fumbleCount, UInt32.toNat_ofNat_of_lt' (lt_of_le_of_lt
    (hle.trans (length_baseDice_le rolled)) hcount)]
  refine countP_baseDice fun t ht die hdie => ?_
  obtain ⟨sides, hsides, htwo, hdie⟩ := hdice t ht die hdie
  refine ⟨sides, hsides, ?_⟩
  obtain ⟨first, rest, hrolls⟩ := List.exists_cons_of_ne_nil hdie.rolled
  -- a die that shows a one does not show its highest face, which is at least two
  have hne : first = 1 → first ≠ sides := by
    rintro rfl rfl
    exact absurd htwo (by decide)
  simp only [RolledDie.isNaturalMax, RolledDie.isNaturalMin, RolledDie.natural, hrolls,
    List.head?_cons, Option.getD_some]
  by_cases hone : first = 1
  · simp [hone, (hone ▸ hne hone : (1 : UInt32) ≠ sides)]
  · simp [hone]

end Extremes

/-! ## Capped sizes -/

theorem largestFirst_ranking : Ranking fun a b : UInt32 => decide (b < a) where
  irrefl a := by simp
  trans := by
    intro a b c hab hbc
    simp only [decide_eq_true_eq, UInt32.lt_iff_toNat_lt] at *
    omega
  connex := by
    intro a b hab hba
    simp only [decide_eq_true_eq, UInt32.lt_iff_toNat_lt] at *
    exact UInt32.toNat_inj.mp (by omega)

/-- A size is reported exactly when some die of that size was capped. -/
theorem mem_cappedSizes {rolled : List RolledTerm} {size : UInt32} :
    size ∈ cappedSizes rolled ↔
      ∃ t ∈ rolled, t.sides? = some size ∧ ∃ die ∈ t.dice, die.capped = true := by
  rw [cappedSizes, mem_ranked largestFirst_ranking, List.mem_filterMap]
  simp only [List.mem_filter, List.any_eq_true, and_assoc]
  exact exists_congr fun t => and_congr_right fun _ => and_comm

/-- The sizes reported decrease. -/
theorem pairwise_cappedSizes (rolled : List RolledTerm) :
    (cappedSizes rolled).Pairwise fun a b => b < a :=
  (pairwise_ranked largestFirst_ranking _).imp of_decide_eq_true

/-! ## The summary -/

/-- A request that has an outcome passed the check of its configuration. -/
theorem validate_of_resolve_ok {σ : Type} {source : DieSource σ} {config : Config}
    {request : Request} {s : σ} {o : Outcome}
    (h : (resolve source config request s).1 = .ok o) :
    (config.overriddenBy request).validate = .ok () := by
  cases hvalid : (config.overriddenBy request).validate with
  | ok => rfl
  | error e =>
    rw [resolve_of_error source s (prepare_of_config_error hvalid)] at h
    cases h

/-- **The summary of an outcome is that of its rolled terms.** Every die shows faces of its own and
explodes as the configuration says. The critical rolls are the dice of added base terms that show
their highest face first, the fumbles those that show a one first, and no die is both. The warnings
are those of the inert modifiers, in order, and then one for each size of which some die was capped,
largest first. -/
theorem outcome_summary {σ : Type} {source : DieSource σ} (hsource : source.ShowsFaces)
    {config : Config} {request : Request} {s : σ} {o : Outcome}
    (h : (resolve source config request s).1 = .ok o)
    (hcount : (o.rolledTerms.flatMap RolledTerm.dice).length < 2 ^ 32) :
    let C := config.overriddenBy request
    (∀ t ∈ o.rolledTerms, ∀ die ∈ t.dice, ∃ sides, t.sides? = some sides ∧ die.Obeys C sides) ∧
    o.criticals.toNat = ((addedBaseTerms o.rolledTerms).map fun t =>
      t.dice.countP fun die => die.rolls.head? = t.sides?).sum ∧
    o.fumbles.toNat = ((addedBaseTerms o.rolledTerms).map fun t =>
      t.dice.countP fun die => die.rolls.head? = some 1).sum ∧
    (∀ t ∈ o.rolledTerms, ∀ die ∈ t.dice,
      ¬ (die.rolls.head? = t.sides? ∧ die.rolls.head? = some 1)) ∧
    ∃ (inert : List Warning) (sizes : List UInt32), o.warnings =
        inert ++ sizes.map (.explosionCapExceeded · C.explosionCap) ∧
      List.Forall₂ (fun m w => ∃ expression e, m.value = .dice expression ∧
          Formula.readWith C.bounds expression = .error e ∧ w = .inertModifier m.name e.message)
        (request.modifiers.filter (Modifier.isInert C.bounds)) inert ∧
      (sizes.Pairwise fun a b => b < a) ∧
      ∀ size, size ∈ sizes ↔
        ∃ t ∈ o.rolledTerms, t.sides? = some size ∧ ∃ die ∈ t.dice, die.capped = true := by
  intro C
  have hvalid := validate_of_resolve_ok h
  obtain ⟨base, evaluation, hread, -, rfl⟩ := exists_of_resolve_ok h
  have hrange : ∀ t ∈ (base.combineWith C.bounds request.modifiers).terms, t.kind.InRange :=
    Formula.inRange_combineWith (Formula.wellFormed_of_readWith hread).inRange request.modifiers
  have hdice : ∀ t ∈ ((base.combineWith C.bounds request.modifiers).roll source C.explosions s).1,
      ∀ die ∈ t.dice, ∃ sides, t.sides? = some sides ∧ 2 ≤ sides.toNat ∧ die.Obeys C sides :=
    fun t ht die hdie => Formula.obeys_of_mem_roll hsource hvalid hrange ht hdie
  refine ⟨?_, toNat_criticalCount hdice hcount, toNat_fumbleCount hdice hcount, ?_,
    Modifier.inertWarnings C.bounds request.modifiers, cappedSizes _, rfl,
    Modifier.forall₂_inertWarnings request.modifiers, pairwise_cappedSizes _,
    fun size => mem_cappedSizes⟩
  · intro t ht die hdie
    obtain ⟨sides, hsides, -, hobeys⟩ := hdice t ht die hdie
    exact ⟨sides, hsides, hobeys⟩
  · -- no die has a single side
    rintro t ht die hdie ⟨hmax, hmin⟩
    obtain ⟨sides, hsides, htwo, -⟩ := hdice t ht die hdie
    rw [hmin, hsides] at hmax
    obtain rfl := Option.some.inj hmax
    exact absurd htwo (by decide)

/-- One of two added dice is capped on its highest face and the other shows a one; a subtracted die
is capped too, and the die of a modifier counts for nothing. -/
theorem outcome_summary_capped :
    let request : Request :=
      ⟨some "2d6-1d4+3", [⟨"Bless", .dice "1d4"⟩, ⟨"Typo", .dice "1x4"⟩], none, none⟩
    let config : Config := { exploding := true, explosionCap := 1 }
    Script.source.ShowsFaces ∧
      ∃ o, (resolve Script.source config request ⟨[6, 6, 1, 4, 4, 1], 0⟩).1 = .ok o ∧
        (o.rolledTerms.flatMap RolledTerm.dice).length < 2 ^ 32 ∧
        o.criticals.toNat = 1 ∧ o.fumbles.toNat = 1 ∧
        .explosionCapExceeded 4 1 ∈ o.warnings := by
  intro request config
  have hbase : prepareBase config request = .ok (config,
      ⟨[.dice .plus 2 6, .dice .minus 1 4, ⟨.plus, .constant 3, .base⟩]⟩) := by decide
  have h : ∃ o, (resolve Script.source config request ⟨[6, 6, 1, 4, 4, 1], 0⟩).1 = .ok o ∧
      o.rolledTerms = [⟨.dice .plus 2 6, .dice [⟨[6, 6], true⟩, ⟨[1], false⟩]⟩,
        ⟨.dice .minus 1 4, .dice [⟨[4, 4], true⟩]⟩, ⟨⟨.plus, .constant 3, .base⟩, .constant 3⟩,
        ⟨⟨.plus, .dice 1 4, .modifier 0⟩, .dice [⟨[1], false⟩]⟩] :=
    ⟨_, congrArg Prod.fst (resolve_of_base Script.source _ hbase), by decide⟩
  obtain ⟨o, ho, hrolled⟩ := h
  have hfaces := Script.source_fair.showsFaces
  have hcount : (o.rolledTerms.flatMap RolledTerm.dice).length < 2 ^ 32 := by
    rw [hrolled]
    decide
  obtain ⟨-, hcriticals, hfumbles, -, inert, sizes, hwarnings, -, -, hsizes⟩ :=
    outcome_summary hfaces ho hcount
  have hfour : 4 ∈ sizes := (hsizes 4).mpr (by rw [hrolled]; decide)
  refine ⟨hfaces, o, ho, hcount, hcriticals.trans ?_, hfumbles.trans ?_, ?_⟩
  · rw [hrolled]
    decide
  · rw [hrolled]
    decide
  · rw [hwarnings]
    exact List.mem_append_right inert (List.mem_map_of_mem hfour)

end Tabletop
