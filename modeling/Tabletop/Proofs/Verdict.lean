import Mathlib.Tactic.ByContra
import Tabletop.Outcome
import Tabletop.Proofs.Dice.Stream

/-!
# Verdicts without dice

Whether a request has an outcome, and which error it ends with otherwise, is known before any die is
rolled.

* `Mechanic.NoDice` — a formula that has nothing for the mechanic to roll.
* `Outcome.ofRolled_eq_noDice_iff`, `Outcome.exists_ofRolled` — the judgement looks at terms alone.
* `Evaluation.of_eq_ofSum`, `Evaluation.of_eq_ofSum_of_ne_dicePool` — a roll that is no pool is
  judged as a sum.
* `resolve_cases` — a request ends in the same error, or in some outcome, for every source.
* `resolve_verdict` — the order of the errors, and the state of the source each one leaves.
-/

namespace Tabletop

/-- A formula that has nothing for the mechanic to roll: a pool needs dice that are added, a custom
roll needs dice, a sum needs none. -/
def Mechanic.NoDice : Mechanic → Formula → Prop
  | rollAndSum, _ => False
  | dicePool, f => ∀ t ∈ f.terms, t.sign = .plus → t.isDice = false
  | custom, f => ∀ t ∈ f.terms, t.isDice = false

/-! ## Judging terms -/

namespace Evaluation

/-- A property of terms holds of some rolled term exactly when it holds of some term rolled. -/
theorem any_term {f : Formula} {rolled : List RolledTerm} (p : Term → Bool)
    (h : rolled.map RolledTerm.term = f.terms) :
    (rolled.any fun t => p t.term) = f.terms.any p := by
  rw [← h, List.any_map]
  rfl

theorem any_inPool_eq_false_iff {f : Formula} {rolled : List RolledTerm}
    (h : rolled.map RolledTerm.term = f.terms) :
    rolled.any inPool = false ↔ Mechanic.dicePool.NoDice f := by
  have hany : rolled.any inPool = f.terms.any fun t => t.isDice && t.sign == .plus :=
    any_term (fun t => t.isDice && t.sign == .plus) h
  rw [hany, List.any_eq_false]
  refine forall₂_congr fun t _ => ?_
  cases t.sign <;> simp

theorem any_isDice_eq_false_iff {f : Formula} {rolled : List RolledTerm}
    (h : rolled.map RolledTerm.term = f.terms) :
    (rolled.any (·.term.isDice)) = false ↔ Mechanic.custom.NoDice f := by
  rw [any_term Term.isDice h, List.any_eq_false]
  exact forall₂_congr fun t _ => iff_of_eq (Bool.not_eq_true t.isDice)

/-- Judging fails when the terms have nothing for the mechanic to roll. -/
theorem of_of_noDice {config : Config} {f : Formula} {rolled : List RolledTerm}
    (h : rolled.map RolledTerm.term = f.terms) (hno : config.mechanic.NoDice f) (extra : Amount) :
    Evaluation.of config rolled extra = .error (.noDice config.mechanic) := by
  rw [Evaluation.of]
  cases hm : config.mechanic with
  | rollAndSum =>
    rw [hm] at hno
    exact hno.elim
  | dicePool =>
    rw [hm, ← any_inPool_eq_false_iff h] at hno
    dsimp only
    rw [hno]
    rfl
  | custom =>
    rw [hm, ← any_isDice_eq_false_iff h] at hno
    dsimp only
    rw [hno]
    rfl

/-- Judging succeeds when they have. -/
theorem exists_of {config : Config} {f : Formula} {rolled : List RolledTerm}
    (h : rolled.map RolledTerm.term = f.terms) (hno : ¬ config.mechanic.NoDice f)
    (extra : Amount) : ∃ evaluation, Evaluation.of config rolled extra = .ok evaluation := by
  rw [Evaluation.of]
  cases hm : config.mechanic with
  | rollAndSum => exact ⟨_, rfl⟩
  | dicePool =>
    rw [hm, ← any_inPool_eq_false_iff h, Bool.not_eq_false] at hno
    exact ⟨_, if_pos hno⟩
  | custom =>
    rw [hm, ← any_isDice_eq_false_iff h, Bool.not_eq_false] at hno
    exact ⟨_, if_pos hno⟩

/-- A sum is judged whatever there is to roll, a custom roll with dice. -/
theorem of_eq_ofSum {config : Config} {f : Formula} {rolled : List RolledTerm}
    (hterm : rolled.map RolledTerm.term = f.terms)
    (h : config.mechanic = .rollAndSum ∨ config.mechanic = .custom ∧ f.hasDice = true)
    (extra : Amount) : Evaluation.of config rolled extra = .ok (ofSum config rolled extra) := by
  rw [Evaluation.of]
  rcases h with hsum | ⟨hcustom, hdice⟩
  · rw [hsum]
  · have hany : (rolled.any (·.term.isDice)) = true := (any_term Term.isDice hterm).trans hdice
    rw [hcustom]
    exact if_pos hany

/-- A roll that is judged, and not as a pool, is judged as a sum; so is every other roll, unless it
lacks the dice that a custom roll needs. -/
theorem of_eq_ofSum_of_ne_dicePool {config : Config} {rolled other : List RolledTerm}
    {extra : Amount} {evaluation : Evaluation}
    (h : Evaluation.of config rolled extra = .ok evaluation)
    (hmechanic : config.mechanic ≠ .dicePool)
    (hany : other.any (·.term.isDice) = rolled.any (·.term.isDice)) :
    Evaluation.of config other extra = .ok (ofSum config other extra) := by
  rw [Evaluation.of] at h ⊢
  cases hm : config.mechanic with
  | rollAndSum => rfl
  | dicePool => exact absurd hm hmechanic
  | custom =>
    rw [hm] at h
    dsimp only at h ⊢
    split at h
    · next hdice => rw [hany, if_pos hdice]
    · cases h

theorem eq_ofSum_of_ne_dicePool {config : Config} {rolled : List RolledTerm} {extra : Amount}
    {evaluation : Evaluation} (h : Evaluation.of config rolled extra = .ok evaluation)
    (hmechanic : config.mechanic ≠ .dicePool) : evaluation = ofSum config rolled extra :=
  Except.ok.inj (h.symm.trans (of_eq_ofSum_of_ne_dicePool h hmechanic rfl))

/-- A roll that is not judged as a pool has the sum of its values for total. -/
theorem total_of_ne_dicePool {config : Config} {rolled : List RolledTerm}
    {evaluation : Evaluation} (h : Evaluation.of config rolled 0 = .ok evaluation)
    (hmechanic : config.mechanic ≠ .dicePool) : evaluation.total = sumTotal rolled 0 := by
  rw [eq_ofSum_of_ne_dicePool h hmechanic, ofSum]

end Evaluation

namespace Outcome

variable {config : Config} {f : Formula} {rolled : List RolledTerm}

theorem ofRolled_of_noDice (request : Request) (h : rolled.map RolledTerm.term = f.terms)
    (hno : config.mechanic.NoDice f) :
    ofRolled config request f rolled = .error (.noDice config.mechanic) := by
  rw [ofRolled, Evaluation.of_of_noDice h hno]
  rfl

theorem exists_ofRolled (request : Request) (h : rolled.map RolledTerm.term = f.terms)
    (hno : ¬ config.mechanic.NoDice f) :
    ∃ outcome, ofRolled config request f rolled = .ok outcome := by
  obtain ⟨evaluation, he⟩ := Evaluation.exists_of h hno 0
  rw [ofRolled, he]
  exact ⟨_, rfl⟩

/-- Rolled terms fail to have an outcome for one reason. -/
theorem noDice_of_ofRolled_error (request : Request) (h : rolled.map RolledTerm.term = f.terms)
    {e : RollError} (he : ofRolled config request f rolled = .error e) :
    config.mechanic.NoDice f ∧ e = .noDice config.mechanic := by
  have hno : config.mechanic.NoDice f := by
    by_contra hno
    obtain ⟨outcome, houtcome⟩ := exists_ofRolled request h hno
    rw [houtcome] at he
    cases he
  rw [ofRolled_of_noDice request h hno] at he
  exact ⟨hno, (Except.error.inj he).symm⟩

/-- **Rolled terms fail to have an outcome exactly when their terms have nothing to roll.** -/
theorem ofRolled_eq_noDice_iff (request : Request) (h : rolled.map RolledTerm.term = f.terms) :
    ofRolled config request f rolled = .error (.noDice config.mechanic) ↔
      config.mechanic.NoDice f :=
  ⟨fun he => (noDice_of_ofRolled_error request h he).1, ofRolled_of_noDice request h⟩

end Outcome

/-! ## Before the dice -/

section Stages

variable {config : Config} {request : Request}

theorem prepare_of_config_error {e : ConfigError}
    (h : (config.overriddenBy request).validate = .error e) :
    prepare config request = .error (.config e) := by
  rw [prepare, h]

theorem prepare_of_formula_error {e : FormulaError}
    (hvalid : (config.overriddenBy request).validate = .ok ())
    (h : Formula.readWith (config.overriddenBy request).bounds
      (request.formulaText (config.overriddenBy request)) = .error e) :
    prepare config request = .error (.formula e) := by
  rw [prepare, hvalid]
  dsimp only
  rw [h]

theorem prepare_of_reads {base : Formula}
    (hvalid : (config.overriddenBy request).validate = .ok ())
    (h : Formula.readWith (config.overriddenBy request).bounds
      (request.formulaText (config.overriddenBy request)) = .ok base) :
    prepare config request = .ok (config.overriddenBy request,
      base.combineWith (config.overriddenBy request).bounds request.modifiers) := by
  rw [prepare, hvalid]
  dsimp only
  rw [h]

variable {σ : Type} (source : DieSource σ) (s : σ)

theorem resolve_of_error {e : RollError} (h : prepare config request = .error e) :
    resolve source config request s = (.error e, s) := by
  rw [resolve, h]

theorem resolve_of_ok {C : Config} {f : Formula} (h : prepare config request = .ok (C, f)) :
    resolve source config request s =
      (Outcome.ofRolled C request f (f.roll source C.explosions s).1,
        (f.roll source C.explosions s).2) := by
  rw [resolve, h]

end Stages

/-- **A request ends the same way for every source**: in one error, or in an outcome. -/
theorem resolve_cases (config : Config) (request : Request) :
    (∃ e, ∀ (σ : Type) (source : DieSource σ) (s : σ),
      (resolve source config request s).1 = .error e) ∨
    ∀ (σ : Type) (source : DieSource σ) (s : σ),
      ∃ outcome, (resolve source config request s).1 = .ok outcome := by
  -- the stages before the dice do not look at the source, nor does the judgement at the faces
  cases hp : prepare config request with
  | error e =>
    refine .inl ⟨e, fun σ source s => ?_⟩
    rw [resolve_of_error source s hp]
  | ok prepared =>
    obtain ⟨C, f⟩ := prepared
    by_cases hno : C.mechanic.NoDice f
    · refine .inl ⟨.noDice C.mechanic, fun σ source s => ?_⟩
      rw [resolve_of_ok source s hp]
      exact Outcome.ofRolled_of_noDice request
        (map_term_rollTerms source C.explosions f.terms s) hno
    · refine .inr fun σ source s => ?_
      rw [resolve_of_ok source s hp]
      exact Outcome.exists_ofRolled request
        (map_term_rollTerms source C.explosions f.terms s) hno

/-! ## The dice of a failed roll -/

section Failed

variable {σ : Type} (source : DieSource σ) (explosions : Explosions)

theorem RolledTerm.asked_of_not_isDice {t : RolledTerm} (h : t.term.isDice = false) :
    t.asked = [] := by
  cases hk : t.term.kind with
  | constant value => exact asked_of_constant hk
  | dice count sides =>
    rw [Term.isDice, hk] at h
    cases h

/-- The term of a rolled term is one of the formula's. -/
theorem Formula.term_mem {f : Formula} {s : σ} {t : RolledTerm}
    (ht : t ∈ (f.roll source explosions s).1) : t.term ∈ f.terms := by
  have hterm := map_term_rollTerms source explosions f.terms s
  rw [← hterm]
  exact List.mem_map_of_mem ht

/-- Without dice terms, nothing is drawn. -/
theorem Formula.roll_of_no_dice {f : Formula} (h : Mechanic.custom.NoDice f) (s : σ) :
    (f.roll source explosions s).2 = s := by
  have hdraw := rollTerms_draw source explosions f.terms s
  have hasked : (rollTerms source explosions f.terms s).1.flatMap RolledTerm.asked = [] :=
    List.flatMap_eq_nil_iff.mpr fun t ht =>
      RolledTerm.asked_of_not_isDice (h t.term (term_mem source explosions ht))
  rw [hasked, DieSource.draw_nil] at hdraw
  exact (Prod.mk.inj hdraw).2.symm

/-- Without added dice, only subtracted dice are drawn. -/
theorem Formula.minus_of_asked {f : Formula} {s : σ} {t : RolledTerm}
    (h : Mechanic.dicePool.NoDice f) (ht : t ∈ (f.roll source explosions s).1)
    (hasked : t.asked ≠ []) : t.term.isDice = true ∧ t.term.sign = .minus := by
  have hdice : t.term.isDice = true := by
    by_contra hno
    exact hasked (RolledTerm.asked_of_not_isDice (Bool.eq_false_iff.mpr hno))
  refine ⟨hdice, ?_⟩
  cases hsign : t.term.sign with
  | minus => rfl
  | plus =>
    have hno := h t.term (term_mem source explosions ht) hsign
    rw [hdice] at hno
    cases hno

end Failed

/-! ## The verdict -/

/-- **The verdict is decided without the dice.** The configuration is looked at first, then the
formula, then whether the combined formula has what its mechanic rolls; what passes has an outcome,
for every source alike. Only a pool without added dice fails after dice are drawn, and these are
subtracted ones. -/
theorem resolve_verdict {σ τ : Type} (source : DieSource σ) (other : DieSource τ)
    (config : Config) (request : Request) (s : σ) (s' : τ) :
    let C := config.overriddenBy request
    let text := request.formulaText C
    (∀ e, C.validate = .error e → resolve source config request s = (.error (.config e), s)) ∧
    (∀ e, C.validate = .ok () → Formula.readWith C.bounds text = .error e →
      resolve source config request s = (.error (.formula e), s)) ∧
    (∀ base, C.validate = .ok () → Formula.readWith C.bounds text = .ok base →
      let F := base.combineWith C.bounds request.modifiers
      let rolled := (F.roll source C.explosions s).1
      ((resolve source config request s).1 = .error (.noDice C.mechanic) ↔
        C.mechanic.NoDice F) ∧
      (¬ C.mechanic.NoDice F → ∃ outcome, (resolve source config request s).1 = .ok outcome) ∧
      (C.mechanic = .custom → C.mechanic.NoDice F → (resolve source config request s).2 = s) ∧
      (C.mechanic = .dicePool → C.mechanic.NoDice F →
        rolled.map RolledTerm.term = F.terms ∧
        source.draw (rolled.flatMap RolledTerm.asked) s =
          (rolled.flatMap RolledTerm.faces, (resolve source config request s).2) ∧
        ∀ t ∈ rolled, t.asked ≠ [] → t.term.isDice = true ∧ t.term.sign = .minus)) ∧
    ((∃ a b, (resolve source config request s).1 = .ok a ∧
        (resolve other config request s').1 = .ok b) ∨
      ∃ e, (resolve source config request s).1 = .error e ∧
        (resolve other config request s').1 = .error e) := by
  intro C text
  refine ⟨?_, ?_, ?_, ?_⟩
  · intro e h
    exact resolve_of_error source s (prepare_of_config_error h)
  · intro e hvalid h
    exact resolve_of_error source s (prepare_of_formula_error hvalid h)
  · intro base hvalid h F rolled
    have hterm : rolled.map RolledTerm.term = F.terms :=
      map_term_rollTerms source C.explosions F.terms s
    have hresolve := resolve_of_ok source s (prepare_of_reads hvalid h)
    rw [hresolve]
    refine ⟨Outcome.ofRolled_eq_noDice_iff request hterm, Outcome.exists_ofRolled request hterm,
      ?_, ?_⟩
    · intro hcustom hno
      rw [hcustom] at hno
      exact Formula.roll_of_no_dice source C.explosions hno s
    · intro hpool hno
      rw [hpool] at hno
      exact ⟨hterm, rollTerms_draw source C.explosions F.terms s,
        fun t ht => Formula.minus_of_asked source C.explosions hno ht⟩
  · rcases resolve_cases config request with ⟨e, he⟩ | hok
    · exact .inr ⟨e, he σ source s, he τ other s'⟩
    · obtain ⟨a, ha⟩ := hok σ source s
      obtain ⟨b, hb⟩ := hok τ other s'
      exact .inl ⟨a, b, ha, hb⟩

/-- A pool of subtracted dice fails after its two dice are drawn. -/
theorem resolve_verdict_subtracted :
    (Config.pool "5-2d6" 8).validate = .ok () ∧
      Formula.readWith .reject "5-2d6" =
        .ok ⟨[⟨.plus, .constant 5, .base⟩, .dice .minus 2 6]⟩ ∧
      (resolve Script.source (.pool "5-2d6" 8) ⟨none, [], none, none⟩ ⟨[4, 2], 0⟩).1 =
        .error (.noDice .dicePool) ∧
      Script.source.draw [6, 6] ⟨[4, 2], 0⟩ = ([4, 2],
        (resolve Script.source (.pool "5-2d6" 8) ⟨none, [], none, none⟩ ⟨[4, 2], 0⟩).2) := by
  have hvalid : (Config.pool "5-2d6" 8).validate = .ok () := rfl
  have hread : Formula.readWith .reject "5-2d6" =
      .ok ⟨[⟨.plus, .constant 5, .base⟩, .dice .minus 2 6]⟩ := rfl
  have hno : Mechanic.dicePool.NoDice
      ⟨[⟨.plus, .constant 5, .base⟩, .dice .minus 2 6]⟩ := by
    refine List.forall_mem_cons.mpr ⟨fun _ => rfl, List.forall_mem_singleton.mpr ?_⟩
    exact nofun
  obtain ⟨-, -, h, -⟩ := resolve_verdict Script.source Script.source (.pool "5-2d6" 8)
    ⟨none, [], none, none⟩ ⟨[4, 2], 0⟩ ⟨[4, 2], 0⟩
  obtain ⟨herror, -, -, hpool⟩ := h _ hvalid hread
  exact ⟨hvalid, hread, herror.mpr hno, (hpool rfl hno).2.1⟩

end Tabletop
