import Tabletop.Proofs.Outcome
import Tabletop.Proofs.Session.Lockstep
import Tabletop.Proofs.Summary

/-!
# The cap on explosions

The cap is a safety net for dice that would explode for too long. Dice that stop by themselves ask
the source for the same faces whatever the cap, as long as it leaves room for their explosions. One
face more or less would move all the dice behind it, so this has to hold of every die at once.

* `RolledDie.StopsWithin` — a die that stopped by itself, and what it needs of a cap.
* `explode_of_stops` — explosions that ended by themselves do not depend on the room they had.
* `Formula.roll_withCap` — a roll of such dice is the same with the other cap.
* `explosionCap_only_stops` — formulas and requests under two caps.
-/

namespace Tabletop

/-- The same explosions with another cap. -/
def Explosions.withCap (explosions : Explosions) (cap : UInt32) : Explosions :=
  { explosions with cap := cap }

/-- A die that stopped by itself, and for which a cap leaves room enough. -/
structure RolledDie.StopsWithin (cap : UInt32) (die : RolledDie) : Prop where
  /-- the cap it was rolled under did not stop it -/
  stopped : die.capped = false
  /-- the other cap allows as many explosions -/
  room : die.explosions ≤ cap.toNat

/-! ## Rolling under another cap -/

section Rolling

variable {σ : Type} (source : DieSource σ) {explosions : Explosions} {cap : UInt32}

/-- Below the threshold nothing explodes, however much room there is. -/
theorem explode_of_below {sides threshold last : UInt32} (h : ¬ threshold ≤ last) (room : Nat)
    (s : σ) : explode source sides threshold room last s = (([], false), s) := by
  cases room with
  | zero => rw [explode, decide_eq_false h]
  | succ room => exact explode_of_not_le source h room s

/-- **Explosions that ended by themselves do not depend on the room they had**: with any room that
holds them, they are the same, and the source is left in the same state. -/
theorem explode_of_stops {sides threshold last : UInt32} {room room' : Nat} {s : σ}
    (hstopped : (explode source sides threshold room last s).1.2 = false)
    (hroom : (explode source sides threshold room last s).1.1.length ≤ room') :
    explode source sides threshold room' last s = explode source sides threshold room last s := by
  -- both rooms shrink with each explosion; the face in front decides in both alike
  induction room generalizing room' last s with
  | zero =>
    have hbelow : ¬ threshold ≤ last := of_decide_eq_false hstopped
    rw [explode_of_below source hbelow, explode_of_below source hbelow]
  | succ room ih =>
    by_cases h : threshold ≤ last
    · rw [explode_of_le source h] at hstopped hroom
      have hpos : 1 ≤ room' := (Nat.succ_le_succ (Nat.zero_le _)).trans hroom
      obtain ⟨room', rfl⟩ := Nat.exists_eq_add_of_le' hpos
      rw [explode_of_le source h, explode_of_le source h,
        ih hstopped (Nat.le_of_succ_le_succ hroom)]
    · rw [explode_of_below source h, explode_of_below source h]

theorem rollDie_withCap {sides : UInt32} {s : σ}
    (h : (rollDie source explosions sides s).1.StopsWithin cap) :
    rollDie source (explosions.withCap cap) sides s = rollDie source explosions sides s := by
  cases ht : explosions.threshold? sides with
  | none =>
    have ht' : (explosions.withCap cap).threshold? sides = none := ht
    rw [rollDie_of_none source ht, rollDie_of_none source ht']
  | some threshold =>
    have ht' : (explosions.withCap cap).threshold? sides = some threshold := ht
    rw [rollDie_of_threshold source ht] at h
    rw [rollDie_of_threshold source ht, rollDie_of_threshold source ht', Explosions.withCap,
      explode_of_stops source h.stopped h.room]

theorem rollDice_withCap {sides : UInt32} {count : Nat} {s : σ}
    (h : ∀ die ∈ (rollDice source explosions sides count s).1, die.StopsWithin cap) :
    rollDice source (explosions.withCap cap) sides count s =
      rollDice source explosions sides count s := by
  induction count generalizing s with
  | zero => rfl
  | succ count ih =>
    rw [rollDice_succ, List.forall_mem_cons] at h
    rw [rollDice_succ, rollDice_succ, rollDie_withCap source h.1, ih h.2]

theorem rollTerm_withCap {t : Term} {s : σ}
    (h : ∀ die ∈ (rollTerm source explosions t s).1.dice, die.StopsWithin cap) :
    rollTerm source (explosions.withCap cap) t s = rollTerm source explosions t s := by
  cases hkind : t.kind with
  | constant value =>
    rw [rollTerm_of_constant source explosions hkind, rollTerm_of_constant source _ hkind]
  | dice count sides =>
    rw [rollTerm_of_dice source explosions hkind] at h
    rw [rollTerm_of_dice source explosions hkind, rollTerm_of_dice source _ hkind,
      rollDice_withCap source h]

theorem rollTerms_withCap {ts : List Term} {s : σ}
    (h : ∀ t ∈ (rollTerms source explosions ts s).1, ∀ die ∈ t.dice, die.StopsWithin cap) :
    rollTerms source (explosions.withCap cap) ts s = rollTerms source explosions ts s := by
  induction ts generalizing s with
  | nil => rfl
  | cons t ts ih =>
    rw [rollTerms_cons, List.forall_mem_cons] at h
    rw [rollTerms_cons, rollTerms_cons, rollTerm_withCap source h.1, ih h.2]

/-- **A roll whose dice all stopped by themselves is the same under another cap** that leaves room
for their explosions: the same rolled terms, and the same state of the source. -/
theorem Formula.roll_withCap {f : Formula} {s : σ}
    (h : ∀ t ∈ (f.roll source explosions s).1, ∀ die ∈ t.dice, die.StopsWithin cap) :
    f.roll source (explosions.withCap cap) s = f.roll source explosions s :=
  rollTerms_withCap source h

/-- A term that rolled dice tells their sides. -/
theorem rollTerms_sides (explosions : Explosions) (ts : List Term) (s : σ) :
    ∀ t ∈ (rollTerms source explosions ts s).1, ∀ die ∈ t.dice,
      ∃ sides, t.sides? = some sides := by
  induction ts generalizing s with
  | nil => exact nofun
  | cons t ts ih =>
    rw [rollTerms_cons, List.forall_mem_cons]
    refine ⟨fun die hdie => ?_, ih _⟩
    cases hkind : t.kind with
    | constant value =>
      rw [rollTerm_of_constant source explosions hkind] at hdie
      cases hdie
    | dice count sides =>
      rw [rollTerm_of_dice source explosions hkind]
      exact ⟨sides, by rw [RolledTerm.sides?, Term.sides?, hkind]⟩

end Rolling

/-! ## Requests under another cap -/

section Requests

variable {config : Config} {request : Request} {rolled : List RolledTerm}

/-- What is rolled for a request does not depend on the cap. -/
theorem prepare_explosionCap (config : Config) (request : Request) (cap : UInt32) :
    prepare { config with explosionCap := cap } request =
      (prepare config request).map fun (C, f) => ({ C with explosionCap := cap }, f) := by
  have hvalid : (({ config with explosionCap := cap } : Config).overriddenBy request).validate =
      (config.overriddenBy request).validate := rfl
  rw [prepare, prepare, hvalid]
  cases (config.overriddenBy request).validate with
  | error e => rfl
  | ok =>
    dsimp only [Config.overriddenBy, Request.formulaText]
    cases Formula.readWith config.bounds (request.formula.getD config.baseFormula) <;> rfl

theorem prepare_explosionCap_of_ok {C : Config} {f : Formula}
    (h : prepare config request = .ok (C, f)) (cap : UInt32) :
    prepare { config with explosionCap := cap } request =
      .ok ({ C with explosionCap := cap }, f) := by
  rw [prepare_explosionCap, h]
  rfl

/-- An outcome that warns of no cap has no size to warn of. -/
theorem cappedSizes_eq_nil {f : Formula} {evaluation : Evaluation}
    (h : ∀ sides cap, .explosionCapExceeded sides cap ∉
      (Outcome.ofEvaluation config request f rolled evaluation).warnings) :
    cappedSizes rolled = [] :=
  List.eq_nil_iff_forall_not_mem.mpr fun size hsize =>
    h size config.explosionCap (List.mem_append_right _ (List.mem_map_of_mem hsize))

/-- Without a size to warn of, the outcome does not tell the cap. -/
theorem Outcome.ofEvaluation_explosionCap (h : cappedSizes rolled = []) (f : Formula)
    (evaluation : Evaluation) (cap : UInt32) :
    ofEvaluation { config with explosionCap := cap } request f rolled evaluation =
      ofEvaluation config request f rolled evaluation := by
  have hwarnings : ∀ cap, capWarnings cap rolled = [] := by
    intro cap
    rw [capWarnings, h, List.map_nil]
  simp only [ofEvaluation, hwarnings]

section Resolved

variable {σ : Type} {source : DieSource σ} {s : σ} {cap : UInt32}

/-- An outcome without a warning of the cap is the outcome under another cap that leaves room. -/
theorem resolve_explosionCap_of_ok {o : Outcome}
    (h : (resolve source config request s).1 = .ok o)
    (hwarnings : ∀ sides cap, .explosionCapExceeded sides cap ∉ o.warnings)
    (hroom : ∀ t ∈ o.rolledTerms, ∀ die ∈ t.dice, die.explosions ≤ cap.toNat) :
    resolve source { config with explosionCap := cap } request s =
      resolve source config request s := by
  cases hp : prepare config request with
  | error e =>
    rw [resolve_of_error source s hp] at h
    cases h
  | ok prepared =>
    obtain ⟨C, f⟩ := prepared
    have hp' := prepare_explosionCap_of_ok hp cap
    rw [resolve_of_ok source s hp, Outcome.ofRolled_eq_map] at h
    obtain ⟨evaluation, he, rfl⟩ := exists_of_map_eq_ok h
    have hsizes := cappedSizes_eq_nil hwarnings
    have hstops : ∀ t ∈ (f.roll source C.explosions s).1, ∀ die ∈ t.dice, die.StopsWithin cap := by
      refine fun t ht die hdie => ⟨?_, hroom t ht die hdie⟩
      by_contra hcapped
      -- a capped die has a size to warn of
      obtain ⟨sides, hsides⟩ := rollTerms_sides source C.explosions f.terms s t ht die hdie
      have hmem : sides ∈ cappedSizes (f.roll source C.explosions s).1 :=
        mem_cappedSizes.mpr ⟨t, ht, hsides, die, hdie, (Bool.not_eq_false _).mp hcapped⟩
      rw [hsizes] at hmem
      cases hmem
    have hroll : f.roll source ({ C with explosionCap := cap } : Config).explosions s =
        f.roll source C.explosions s := Formula.roll_withCap source hstops
    -- the judgement does not look at the cap
    have hjudged : Evaluation.of { C with explosionCap := cap }
        (f.roll source C.explosions s).1 0 = .ok evaluation := he
    rw [resolve_of_ok source s hp, resolve_of_ok source s hp', Outcome.ofRolled_eq_map,
      Outcome.ofRolled_eq_map, hroll, hjudged, he]
    exact congrArg (fun o => (Except.ok o, (f.roll source C.explosions s).2))
      (Outcome.ofEvaluation_explosionCap hsizes f evaluation cap)

/-- A request without an outcome ends in the same error under every cap. -/
theorem resolve_explosionCap_of_error {e : RollError}
    (h : (resolve source config request s).1 = .error e) (cap : UInt32) :
    (resolve source { config with explosionCap := cap } request s).1 = .error e := by
  cases hp : prepare config request with
  | error e' =>
    have hp' : prepare { config with explosionCap := cap } request = .error e' := by
      rw [prepare_explosionCap, hp]
      rfl
    rw [resolve_of_error source s hp] at h
    rwa [resolve_of_error source s hp']
  | ok prepared =>
    obtain ⟨C, f⟩ := prepared
    have hp' := prepare_explosionCap_of_ok hp cap
    rw [resolve_of_ok source s hp] at h
    obtain ⟨hno, rfl⟩ := Outcome.noDice_of_ofRolled_error request
      (map_term_rollTerms source C.explosions f.terms s) h
    have hno' : ({ C with explosionCap := cap } : Config).mechanic.NoDice f := hno
    rw [resolve_of_ok source s hp']
    exact Outcome.ofRolled_of_noDice request (map_term_rollTerms source _ f.terms s) hno'

end Resolved

end Requests

/-- **The cap on explosions is only a safety net.** When no die of a roll was capped, the roll is
the same under every cap, larger or smaller, that allows the explosions of its dice: the same rolled
terms, and the same state of the source. An outcome without a warning of the cap is therefore the
same outcome under every such cap, and a request that has no outcome ends in the same error under
every cap at all. -/
theorem explosionCap_only_stops {σ : Type} (source : DieSource σ) (s : σ) :
    (∀ (f : Formula) (threshold? : UInt32 → Option UInt32) (cap cap' : UInt32),
      let rolled := (f.roll source ⟨threshold?, cap⟩ s).1
      (∀ t ∈ rolled, ∀ die ∈ t.dice, die.capped = false) →
      (∀ t ∈ rolled, ∀ die ∈ t.dice, die.explosions ≤ cap'.toNat) →
      f.roll source ⟨threshold?, cap'⟩ s = f.roll source ⟨threshold?, cap⟩ s) ∧
    ∀ (config : Config) (cap' : UInt32) (request : Request),
      let first := resolve source config request s
      let second := resolve source { config with explosionCap := cap' } request s
      (∀ o, first.1 = .ok o →
        (∀ sides cap, .explosionCapExceeded sides cap ∉ o.warnings) →
        (∀ t ∈ o.rolledTerms, ∀ die ∈ t.dice, die.explosions ≤ cap'.toNat) →
        second = first) ∧
      ∀ e, first.1 = .error e → second.1 = .error e := by
  refine ⟨?_, ?_⟩
  · intro f threshold? cap cap' rolled hstopped hroom
    have hstops : ∀ t ∈ rolled, ∀ die ∈ t.dice, die.StopsWithin cap' :=
      fun t ht die hdie => ⟨hstopped t ht die hdie, hroom t ht die hdie⟩
    exact Formula.roll_withCap source hstops
  · intro config cap' request first second
    exact ⟨fun o => resolve_explosionCap_of_ok, fun e he => resolve_explosionCap_of_error he cap'⟩

/-- Three dice under a cap of five and under a cap of two: the first explodes exactly twice, and the
last once. -/
theorem explosionCap_only_stops_exactly :
    let f : Formula := ⟨[.dice .plus 3 6]⟩
    let config : Config := { exploding := true, explosionCap := 5 }
    let request : Request := ⟨some "3d6", [], none, none⟩
    let script : Script := ⟨[6, 6, 2, 3, 6, 1], 0⟩
    let rolled : List RolledTerm :=
      [⟨.dice .plus 3 6, .dice [⟨[6, 6, 2], false⟩, ⟨[3], false⟩, ⟨[6, 1], false⟩]⟩]
    f.roll Script.source ⟨some, 2⟩ script = (rolled, ⟨[6, 6, 2, 3, 6, 1], 6⟩) ∧
      ∃ o, (resolve Script.source config request script).1 = .ok o ∧ o.rolledTerms = rolled ∧
        resolve Script.source { config with explosionCap := 2 } request script =
          (.ok o, ⟨[6, 6, 2, 3, 6, 1], 6⟩) := by
  intro f config request script rolled
  have hroll : f.roll Script.source ⟨some, 5⟩ script =
      (rolled, ⟨[6, 6, 2, 3, 6, 1], 6⟩) := by decide
  have h : ∃ o, resolve Script.source config request script =
      (.ok o, ⟨[6, 6, 2, 3, 6, 1], 6⟩) ∧ o.warnings = [] ∧ o.rolledTerms = rolled :=
    ⟨⟨"3d6", 24, none, rolled, "3d6 [[6+6+2], 3, [6+1]] = 24", 2, 0, []⟩, by decide, rfl, rfl⟩
  obtain ⟨o, ho, hwarnings, hrolled⟩ := h
  have hfirst : (resolve Script.source config request script).1 = .ok o := congrArg Prod.fst ho
  obtain ⟨hrolls, hrequests⟩ := explosionCap_only_stops Script.source script
  have hsame := (hrequests config 2 request).1 o hfirst (by simp [hwarnings])
    (by rw [hrolled]; decide)
  exact ⟨(hrolls f some 5 2 (by rw [hroll]; decide) (by rw [hroll]; decide)).trans hroll,
    o, hfirst, hrolled, hsame.trans ho⟩

end Tabletop
