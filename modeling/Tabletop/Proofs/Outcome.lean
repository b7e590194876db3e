import Tabletop.Proofs.Origins
import Tabletop.Proofs.Verdict

/-!
# What an outcome is made of

A request that has an outcome passed every stage: its formula was read, combined with the modifiers
and rolled, and the roll was judged. The outcome follows from the rolled terms and their judgement.

* `Outcome.ofEvaluation` — the outcome of rolled terms that have been judged.
* `prepareBase` — the stages before the modifiers, which they cannot change.
* `resolve_of_base_error`, `resolve_of_base` — how a request ends, from these stages.
* `resolve_of_combineWith_mapOrigin` — two requests whose formulas differ by origins alone.
* `exists_of_resolve_ok` — the formula, the roll and the judgement behind an outcome.
-/

namespace Tabletop

/-- The outcome of rolled terms with their judgement. -/
def Outcome.ofEvaluation (config : Config) (request : Request) (combined : Formula)
    (rolled : List RolledTerm) (evaluation : Evaluation) : Outcome where
  formula := combined.text
  total := evaluation.total
  success := evaluation.success
  rolledTerms := rolled
  description := describe rolled evaluation (modifierDescriptions request.modifiers rolled)
  criticals := criticalCount rolled
  fumbles := fumbleCount rolled
  warnings := Modifier.inertWarnings config.bounds request.modifiers ++
    capWarnings config.explosionCap rolled

/-- A roll has the outcome of its judgement, or the error of its judgement. -/
theorem Outcome.ofRolled_eq_map (config : Config) (request : Request) (combined : Formula)
    (rolled : List RolledTerm) :
    ofRolled config request combined rolled =
      (Evaluation.of config rolled 0).map (ofEvaluation config request combined rolled) := by
  rw [ofRolled]
  cases Evaluation.of config rolled 0 <;> rfl

/-- What is mapped to a success was one. -/
theorem exists_of_map_eq_ok {ε α β : Type} {f : α → β} {x : Except ε α} {y : β}
    (h : x.map f = .ok y) : ∃ a, x = .ok a ∧ f a = y := by
  cases x with
  | error e => cases h
  | ok a => exact ⟨a, rfl, Except.ok.inj h⟩

/-! ## Before the modifiers -/

/-- What a request rolls before its modifiers are looked at: the configuration with the overrides
and the formula of the text, or the error found there. -/
def prepareBase (config : Config) (request : Request) : Except RollError (Config × Formula) :=
  let config := config.overriddenBy request
  match config.validate with
  | .error e => .error (.config e)
  | .ok () =>
    match Formula.readWith config.bounds (request.formulaText config) with
    | .error e => .error (.formula e)
    | .ok base => .ok (config, base)

/-- Modifiers come in after the formula is read. -/
theorem prepare_eq_map (config : Config) (request : Request) :
    prepare config request = (prepareBase config request).map fun (C, base) =>
      (C, base.combineWith C.bounds request.modifiers) := by
  rw [prepare, prepareBase]
  cases (config.overriddenBy request).validate with
  | error e => rfl
  | ok =>
    dsimp only
    cases Formula.readWith (config.overriddenBy request).bounds
      (request.formulaText (config.overriddenBy request)) <;> rfl

/-- These stages do not look at the modifiers. -/
theorem prepareBase_modifiers (config : Config) (request : Request) (modifiers : List Modifier) :
    prepareBase config { request with modifiers := modifiers } = prepareBase config request := rfl

section Stages

variable {config C : Config} {request : Request} {base : Formula}

/-- These stages are passed by a usable configuration and a formula that can be read. -/
theorem prepareBase_eq_ok_iff : prepareBase config request = .ok (C, base) ↔
    config.overriddenBy request = C ∧ C.validate = .ok () ∧
      Formula.readWith C.bounds (request.formulaText C) = .ok base := by
  rw [prepareBase]
  constructor
  · intro h
    split at h
    · cases h
    · next hvalid =>
      split at h
      · cases h
      · next hread =>
        cases h
        exact ⟨rfl, hvalid, hread⟩
  · rintro ⟨rfl, hvalid, hread⟩
    simp only [hvalid, hread]

theorem read_of_prepareBase (h : prepareBase config request = .ok (C, base)) :
    C = config.overriddenBy request ∧
      Formula.readWith C.bounds (request.formulaText C) = .ok base := by
  obtain ⟨rfl, -, hread⟩ := prepareBase_eq_ok_iff.mp h
  exact ⟨rfl, hread⟩

/-- What is rolled is the formula of the text with the modifiers. -/
theorem exists_base_of_prepare {f : Formula} (h : prepare config request = .ok (C, f)) :
    ∃ base, prepareBase config request = .ok (C, base) ∧
      base.combineWith C.bounds request.modifiers = f := by
  rw [prepare_eq_map] at h
  obtain ⟨⟨C, base⟩, hp, heq⟩ := exists_of_map_eq_ok h
  obtain ⟨rfl, rfl⟩ := Prod.mk.inj heq
  exact ⟨base, hp, rfl⟩

/-- An error found before the modifiers is the answer, and nothing is drawn. -/
theorem resolve_of_base_error {σ : Type} (source : DieSource σ) (s : σ) {e : RollError}
    (h : prepareBase config request = .error e) :
    resolve source config request s = (.error e, s) := by
  have hprepare : prepare config request = .error e := by
    rw [prepare_eq_map, h]
    rfl
  exact resolve_of_error source s hprepare

/-- Otherwise the formula is rolled with the modifiers, and the roll is judged. -/
theorem resolve_of_base {σ : Type} (source : DieSource σ) (s : σ)
    (h : prepareBase config request = .ok (C, base)) :
    let F := base.combineWith C.bounds request.modifiers
    resolve source config request s =
      ((Evaluation.of C (F.roll source C.explosions s).1 0).map
          (Outcome.ofEvaluation C request F (F.roll source C.explosions s).1),
        (F.roll source C.explosions s).2) := by
  have hprepare : prepare config request =
      .ok (C, base.combineWith C.bounds request.modifiers) := by
    rw [prepare_eq_map, h]
    rfl
  rw [resolve_of_ok source s hprepare, Outcome.ofRolled_eq_map]

/-- A combined formula that is another one with its origins changed has the dice and the judgement
of that one. -/
theorem resolve_of_base_mapOrigin {σ : Type} (source : DieSource σ) (s : σ)
    (h : prepareBase config request = .ok (C, base)) {f : Formula} {g : Origin → Origin}
    (hf : base.combineWith C.bounds request.modifiers = f.mapOrigin g) :
    let rolled := (f.roll source C.explosions s).1
    resolve source config request s =
      ((Evaluation.of C rolled 0).map (Outcome.ofEvaluation C request (f.mapOrigin g)
          (rolled.map (RolledTerm.mapOrigin g))),
        (f.roll source C.explosions s).2) := by
  have hresolve := resolve_of_base source s h
  dsimp only at hresolve
  rwa [hf, Formula.roll_mapOrigin, Evaluation.of_mapOrigin] at hresolve

end Stages

/-- **Two requests of one roll**: when other modifiers give the combined formula but for its
origins, both requests leave the source in the same state, and they end in the same error or in the
outcomes of one judgement. -/
theorem resolve_of_combineWith_mapOrigin {σ : Type} (source : DieSource σ) (config : Config)
    (request : Request) (modifiers : List Modifier) (g : Origin → Origin)
    (hf : ∀ C base, prepareBase config request = .ok (C, base) →
      base.combineWith C.bounds modifiers =
        (base.combineWith C.bounds request.modifiers).mapOrigin g)
    (s : σ) :
    let one := resolve source config request s
    let other := resolve source config { request with modifiers := modifiers } s
    other.2 = one.2 ∧
      ((∃ e, one.1 = .error e ∧ other.1 = .error e) ∨
        ∃ C f rolled evaluation,
          one.1 = .ok (Outcome.ofEvaluation C request f rolled evaluation) ∧
          other.1 = .ok (Outcome.ofEvaluation C { request with modifiers := modifiers }
            (f.mapOrigin g) (rolled.map (RolledTerm.mapOrigin g)) evaluation)) := by
  intro one other
  cases hp : prepareBase config request with
  | error e =>
    have hone : one = (.error e, s) := resolve_of_base_error source s hp
    have hother : other = (.error e, s) := resolve_of_base_error source s hp
    rw [hone, hother]
    exact ⟨rfl, .inl ⟨e, rfl, rfl⟩⟩
  | ok prepared =>
    obtain ⟨C, base⟩ := prepared
    have hone : one = _ := resolve_of_base source s hp
    have hp' : prepareBase config { request with modifiers := modifiers } = .ok (C, base) :=
      (prepareBase_modifiers config request _).trans hp
    have hother : other = _ := resolve_of_base_mapOrigin source s hp' (hf C base hp)
    rw [hone, hother]
    refine ⟨rfl, ?_⟩
    cases Evaluation.of C ((base.combineWith C.bounds request.modifiers).roll source
        C.explosions s).1 0 with
    | error e => exact .inl ⟨e, rfl, rfl⟩
    | ok evaluation => exact .inr ⟨C, _, _, evaluation, rfl, rfl⟩

/-- A request that has an outcome passed the stages before its modifiers. -/
theorem exists_prepareBase_of_resolve_ok {σ : Type} {source : DieSource σ} {config : Config}
    {request : Request} {s : σ} {outcome : Outcome}
    (h : (resolve source config request s).1 = .ok outcome) :
    ∃ base, prepareBase config request = .ok (config.overriddenBy request, base) := by
  cases hp : prepareBase config request with
  | error e =>
    rw [resolve_of_base_error source s hp] at h
    cases h
  | ok prepared =>
    obtain ⟨C, base⟩ := prepared
    obtain ⟨rfl, -⟩ := read_of_prepareBase hp
    exact ⟨base, rfl⟩

/-- **What stands behind an outcome**: the formula of the text, combined with the modifiers, its
roll, and the judgement of that roll. -/
theorem exists_of_resolve_ok {σ : Type} {source : DieSource σ} {config : Config}
    {request : Request} {s : σ} {outcome : Outcome}
    (h : (resolve source config request s).1 = .ok outcome) :
    let C := config.overriddenBy request
    ∃ base evaluation, Formula.readWith C.bounds (request.formulaText C) = .ok base ∧
      let F := base.combineWith C.bounds request.modifiers
      let rolled := (F.roll source C.explosions s).1
      Evaluation.of C rolled 0 = .ok evaluation ∧
        outcome = Outcome.ofEvaluation C request F rolled evaluation := by
  obtain ⟨base, hp⟩ := exists_prepareBase_of_resolve_ok h
  rw [resolve_of_base source s hp] at h
  obtain ⟨evaluation, he, houtcome⟩ := exists_of_map_eq_ok h
  exact ⟨base, evaluation, (read_of_prepareBase hp).2, he, houtcome.symm⟩

end Tabletop
