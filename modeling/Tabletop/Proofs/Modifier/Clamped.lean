import Tabletop.Proofs.Modifier.Blocks

/-!
# Clamping instead of refusing

Dice out of range are refused or clamped. A request that has an outcome when they are refused has
one when they are clamped: its formula reads the same, and modifiers that could not be read may now
be read, whose terms come behind those of the formula.

* `Formula.readWith_clamp` — what is read without clamping reads the same with it.
* `Formula.NeedsClamp` — the texts that are read only with clamping.
* `Modifier.addedTerms_clamp` — a modifier that is inert under both policies or under none adds the
  same.
* `Warning.SameButReason` — warnings that differ in the reason of an inert modifier alone.
* `Outcome.Inert` — the modifiers that an outcome shows to be inert.
* `resolve_clamp` — the outcomes of a request under both policies.
-/

namespace Tabletop

/-! ## Reading under both policies -/

theorem BoundsPolicy.hold_clamp {low high n : Nat} (h : low ≤ n ∧ n ≤ high) :
    BoundsPolicy.clamp.hold low high n = BoundsPolicy.reject.hold low high n := by
  rw [hold, hold]
  omega

theorem Body.InRange.clamp {b : Body} (h : b.InRange .reject) : b.InRange .clamp := by
  cases b with
  | constant value => exact h
  | dice count sides => exact nofun

theorem Piece.Means.clamp {p : Piece} {b : Body} {t : Term} (h : p.Means .reject b t)
    (hrange : b.InRange .reject) : p.Means .clamp b t := by
  refine ⟨h.sign, h.origin, ?_⟩
  cases b with
  | constant value => exact h.kind
  | dice count sides =>
    obtain ⟨hcount, hsides⟩ := hrange rfl
    obtain ⟨n, m, hkind, hn, hm⟩ := h.kind
    refine ⟨n, m, hkind, ?_, ?_⟩
    · rw [BoundsPolicy.hold_clamp hcount, hn]
    · rw [BoundsPolicy.hold_clamp hsides, hm]

namespace Formula

/-- **What is read without clamping reads the same with it.** -/
theorem readWith_clamp {text : String} {f : Formula} (h : readWith .reject text = .ok f) :
    readWith .clamp text = .ok f := by
  obtain ⟨parts, hparts, hrange, hspelled⟩ := spelling_of_readWith_ok h
  obtain ⟨f', hok, hspelled'⟩ :=
    readWith_of_inRange hparts fun part hpart => (hrange part hpart).clamp
  have hclamp : f.SpelledBy .clamp parts :=
    ((List.forall₂_and_left _ _).mpr ⟨hrange, hspelled⟩).imp
      fun _ _ hpart => hpart.2.clamp hpart.1
  rw [hok, hspelled'.unique hclamp]

/-- A text that is read only with clamping: it is of a formula's form, its constants are in range,
and some of its dice are not. -/
def NeedsClamp (text : String) : Prop :=
  ∃ parts, Spelling (normalize text) parts ∧
    (∀ p value, (p, Body.constant value) ∈ parts → value ≤ 2 ^ 63 - 1) ∧
    ∃ p count sides, (p, Body.dice count sides) ∈ parts ∧
      ¬ ((1 ≤ count.getD 1 ∧ count.getD 1 ≤ 100) ∧ (2 ≤ sides ∧ sides ≤ 1000))

theorem needsClamp_iff {text : String} : NeedsClamp text ↔
    (∃ e, readWith .reject text = .error e) ∧ ∃ f, readWith .clamp text = .ok f := by
  constructor
  · rintro ⟨parts, hparts, hconstants, p, count, sides, hpart, hout⟩
    have hrange : ∀ part ∈ parts, part.2.InRange .clamp := by
      rintro ⟨p, b⟩ hpart
      cases b with
      | constant value => exact hconstants p value hpart
      | dice count sides => exact nofun
    obtain ⟨f, hok, -⟩ := readWith_of_inRange hparts hrange
    obtain ⟨source, fault, herror⟩ :=
      readWith_of_not_inRange hparts ⟨_, hpart, fun hin => hout (hin rfl)⟩
    exact ⟨⟨_, herror⟩, f, hok⟩
  · rintro ⟨⟨e, herror⟩, f, hok⟩
    obtain ⟨parts, hparts, hrange, -⟩ := spelling_of_readWith_ok hok
    refine ⟨parts, hparts, fun p value hpart => hrange _ hpart, ?_⟩
    -- with all dice in range the text would be read
    by_contra hdice
    push Not at hdice
    have hall : ∀ part ∈ parts, part.2.InRange .reject := by
      rintro ⟨p, b⟩ hpart
      cases b with
      | constant value => exact hrange _ hpart
      | dice count sides => exact fun _ => hdice p count sides hpart
    obtain ⟨f', hok', -⟩ := readWith_of_inRange hparts hall
    rw [herror] at hok'
    cases hok'

end Formula

/-! ## Modifiers under both policies -/

namespace Modifier

variable {m : Modifier}

theorem isInert_of_clamp (h : m.isInert .clamp = true) : m.isInert .reject = true := by
  obtain ⟨expression, e, hvalue, herror⟩ := isInert_iff.mp h
  cases hread : Formula.readWith .reject expression with
  | error e' => exact isInert_of_inert hvalue hread
  | ok f =>
    rw [Formula.readWith_clamp hread] at herror
    cases herror

/-- A modifier is inert only without clamping when it is an expression that needs it. -/
theorem isInert_reject_only_iff : m.isInert .reject = true ∧ m.isInert .clamp = false ↔
    ∃ expression, m.value = .dice expression ∧ Formula.NeedsClamp expression := by
  constructor
  · rintro ⟨hreject, hclamp⟩
    obtain ⟨expression, e, hvalue, herror⟩ := isInert_iff.mp hreject
    refine ⟨expression, hvalue, Formula.needsClamp_iff.mpr ⟨⟨e, herror⟩, ?_⟩⟩
    cases hread : Formula.readWith .clamp expression with
    | ok f => exact ⟨f, rfl⟩
    | error e' =>
      rw [isInert_of_inert hvalue hread] at hclamp
      cases hclamp
  · rintro ⟨expression, hvalue, hneeds⟩
    obtain ⟨⟨e, herror⟩, f, hok⟩ := Formula.needsClamp_iff.mp hneeds
    exact ⟨isInert_of_inert hvalue herror, isInert_of_readable hvalue hok⟩

/-- A modifier that is inert under both policies or under none adds the same. -/
theorem addedTerms_clamp (h : m.isInert .clamp = m.isInert .reject) (index : Nat) :
    m.addedTerms .clamp index = m.addedTerms .reject index := by
  cases m.kind .reject with
  | integer amount hvalue => rw [addedTerms_of_integer hvalue, addedTerms_of_integer hvalue]
  | readable expression f hvalue hread =>
    rw [addedTerms_of_readable hvalue (Formula.readWith_clamp hread),
      addedTerms_of_readable hvalue hread]
  | inert expression e hvalue hread =>
    rw [isInert_of_inert hvalue hread] at h
    obtain ⟨expression', e', hvalue', hread'⟩ := isInert_iff.mp h
    rw [addedTerms_of_inert hvalue' hread', addedTerms_of_inert hvalue hread]

/-- With clamping no term is lost. -/
theorem mem_addedTerms_clamp {index : Nat} {t : Term} (h : t ∈ m.addedTerms .reject index) :
    t ∈ m.addedTerms .clamp index := by
  have hreject := (origin_of_mem_addedTerms h).2
  have hclamp : m.isInert .clamp = false := by
    rw [Bool.eq_false_iff] at hreject ⊢
    exact fun hinert => hreject (isInert_of_clamp hinert)
  rwa [addedTerms_clamp (hclamp.trans hreject.symm)]

theorem addedFrom_clamp {modifiers : List Modifier}
    (h : ∀ m ∈ modifiers, m.isInert .clamp = m.isInert .reject) (first : Nat) :
    addedFrom .clamp first modifiers = addedFrom .reject first modifiers := by
  induction modifiers generalizing first with
  | nil => rfl
  | cons m rest ih =>
    rw [addedFrom_cons, addedFrom_cons, addedTerms_clamp (h m List.mem_cons_self),
      ih fun m hm => h m (List.mem_cons_of_mem _ hm)]

end Modifier

/-- Warnings that differ in the reason of an inert modifier alone. -/
inductive Warning.SameButReason : Warning → Warning → Prop where
  /-- dice of one size stopped by one cap -/
  | explosionCapExceeded (sides cap : UInt32) :
    SameButReason (.explosionCapExceeded sides cap) (.explosionCapExceeded sides cap)
  /-- the name of one modifier -/
  | inertModifier (name reason reason' : String) :
    SameButReason (.inertModifier name reason) (.inertModifier name reason')

theorem Warning.sameButReason_refl (w : Warning) : w.SameButReason w := by
  cases w with
  | explosionCapExceeded sides cap => exact .explosionCapExceeded sides cap
  | inertModifier name reason => exact .inertModifier name reason reason

namespace Modifier

theorem forall₂_inertWarnings_clamp {modifiers : List Modifier}
    (h : ∀ m ∈ modifiers, m.isInert .clamp = m.isInert .reject) :
    List.Forall₂ Warning.SameButReason (inertWarnings .reject modifiers)
      (inertWarnings .clamp modifiers) := by
  induction modifiers with
  | nil => exact .nil
  | cons m rest ih =>
    have ih := ih fun m hm => h m (List.mem_cons_of_mem _ hm)
    have hm := h m List.mem_cons_self
    rw [inertWarnings, inertWarnings]
    cases m.kind .reject with
    | integer amount hvalue =>
      rwa [List.filterMap_cons_none (inertWarning?_of_integer hvalue),
        List.filterMap_cons_none (inertWarning?_of_integer hvalue)]
    | readable expression f hvalue hread =>
      rwa [List.filterMap_cons_none (inertWarning?_of_readable hvalue hread),
        List.filterMap_cons_none
          (inertWarning?_of_readable hvalue (Formula.readWith_clamp hread))]
    | inert expression e hvalue hread =>
      rw [isInert_of_inert hvalue hread] at hm
      obtain ⟨expression', e', hvalue', hread'⟩ := isInert_iff.mp hm
      rw [List.filterMap_cons_some (inertWarning?_of_inert hvalue hread),
        List.filterMap_cons_some (inertWarning?_of_inert hvalue' hread')]
      exact .cons (.inertModifier _ _ _) ih

end Modifier

/-! ## Requests under both policies -/

/-- A formula with more terms has something to roll when the first one has. -/
theorem Mechanic.NoDice.mono {mechanic : Mechanic} {f g : Formula} (h : mechanic.NoDice g)
    (hterms : ∀ t ∈ f.terms, t ∈ g.terms) : mechanic.NoDice f := by
  cases mechanic with
  | rollAndSum => exact h
  | dicePool => exact fun t ht => h t (hterms t ht)
  | custom => exact fun t ht => h t (hterms t ht)

namespace Formula

variable (base : Formula) {modifiers : List Modifier}

/-- The combined formula has with clamping all terms that it has without. -/
theorem mem_combineWith_clamp {t : Term}
    (h : t ∈ (base.combineWith .reject modifiers).terms) :
    t ∈ (base.combineWith .clamp modifiers).terms := by
  rw [mem_combineWith] at h ⊢
  refine h.imp_right (Or.imp_left ?_)
  rintro ⟨index, m, hm, ht⟩
  exact ⟨index, m, hm, Modifier.mem_addedTerms_clamp ht⟩

theorem combineWith_clamp (h : ∀ m ∈ modifiers, m.isInert .clamp = m.isInert .reject) :
    base.combineWith .clamp modifiers = base.combineWith .reject modifiers := by
  rw [combineWith, Modifier.addedFrom_clamp h, combineWith]

end Formula

/-- What is prepared without clamping is prepared with it, from the same formula. -/
theorem prepareBase_clamp {config C : Config} {request : Request} {base : Formula}
    (h : prepareBase { config with bounds := .reject } request = .ok (C, base)) :
    prepareBase { config with bounds := .clamp } request =
      .ok ({ C with bounds := .clamp }, base) := by
  obtain ⟨rfl, hvalid, hread⟩ := prepareBase_eq_ok_iff.mp h
  exact prepareBase_eq_ok_iff.mpr ⟨rfl, hvalid, Formula.readWith_clamp hread⟩

/-- An outcome shows a modifier at a place to be inert: it is an expression, and no term that was
rolled came from it. -/
def Outcome.Inert (o : Outcome) (index : Nat) (m : Modifier) : Prop :=
  (∃ expression, m.value = .dice expression) ∧
    ∀ t ∈ o.rolledTerms, t.term.origin ≠ .modifier index

/-- A roll that is judged without clamping is judged with it, whatever else is rolled then. -/
theorem Evaluation.exists_of_clamp {σ : Type} (source : DieSource σ) {C : Config} {base : Formula}
    {modifiers : List Modifier} {s : σ} {evaluation : Evaluation}
    (h : Evaluation.of C ((base.combineWith .reject modifiers).roll source C.explosions s).1 0 =
      .ok evaluation) :
    ∃ evaluation', Evaluation.of C
      ((base.combineWith .clamp modifiers).roll source C.explosions s).1 0 = .ok evaluation' := by
  refine exists_of (Formula.map_term_roll ..) (fun hno => ?_) 0
  have hno' : C.mechanic.NoDice (base.combineWith .reject modifiers) :=
    hno.mono fun t => base.mem_combineWith_clamp
  rw [of_of_noDice (Formula.map_term_roll ..) hno'] at h
  cases h

/-- The modifiers that an outcome shows to be inert are those that cannot be read. -/
theorem Outcome.inert_ofEvaluation_iff {σ : Type} (source : DieSource σ) (C : Config)
    (request : Request) {base : Formula} (hbase : ∀ t ∈ base.terms, t.origin = .base) (s : σ)
    (evaluation : Evaluation) {index : Nat} {m : Modifier}
    (hm : request.modifiers[index]? = some m) :
    let F := base.combineWith C.bounds request.modifiers
    (ofEvaluation C request F (F.roll source C.explosions s).1 evaluation).Inert index m ↔
      m.isInert C.bounds = true := by
  intro F
  rw [Modifier.isInert_iff]
  constructor
  · rintro ⟨⟨expression, hvalue⟩, hnone⟩
    obtain ⟨e, herror⟩ := (Formula.forall_rolled_origin_ne_iff source C.explosions C.bounds hbase hm
      hvalue s).mp hnone
    exact ⟨expression, e, hvalue, herror⟩
  · rintro ⟨expression, e, hvalue, herror⟩
    exact ⟨⟨expression, hvalue⟩, (Formula.forall_rolled_origin_ne_iff source C.explosions C.bounds
      hbase hm hvalue s).mpr ⟨e, herror⟩⟩

/-- **Clamping extends refusing.** A request that has an outcome when dice out of range are refused
has one when they are clamped, all else equal. A modifier that is inert with clamping is inert
without it; those that are inert only without are the expressions of a formula's form whose
constants are in range and some of whose dice are not. Both outcomes show the same roll of the
formula, and the same criticals and fumbles. When the same modifiers are inert in both, the source
is left in the same state, and the outcomes differ in the reasons given for inert modifiers alone.
-/
theorem resolve_clamp {σ : Type} (source : DieSource σ) (config : Config) (request : Request)
    (s : σ) :
    let strict := resolve source { config with bounds := .reject } request s
    let loose := resolve source { config with bounds := .clamp } request s
    (∀ m : Modifier, m.isInert .clamp = true → m.isInert .reject = true) ∧
    (∀ m : Modifier, m.isInert .reject = true ∧ m.isInert .clamp = false ↔
      ∃ expression, m.value = .dice expression ∧ Formula.NeedsClamp expression) ∧
    ∀ o, strict.1 = .ok o → ∃ o', loose.1 = .ok o' ∧
      (∀ index m, request.modifiers[index]? = some m →
        (o.Inert index m ↔ m.isInert .reject = true) ∧
        (o'.Inert index m ↔ m.isInert .clamp = true)) ∧
      baseTerms o'.rolledTerms = baseTerms o.rolledTerms ∧
      o'.criticals = o.criticals ∧ o'.fumbles = o.fumbles ∧
      ((∀ m ∈ request.modifiers, m.isInert .clamp = m.isInert .reject) →
        loose.2 = strict.2 ∧ o' = { o with warnings := o'.warnings } ∧
        List.Forall₂ Warning.SameButReason o.warnings o'.warnings) := by
  intro strict loose
  refine ⟨fun m => Modifier.isInert_of_clamp, fun m => Modifier.isInert_reject_only_iff, ?_⟩
  intro o ho
  let C := config.overriddenBy request
  obtain ⟨base, hp⟩ := exists_prepareBase_of_resolve_ok ho
  have hbase := (Formula.wellFormed_of_readWith (read_of_prepareBase hp).2).base
  have hstrict : strict = _ := resolve_of_base source s hp
  have hloose : loose = _ := resolve_of_base source s (prepareBase_clamp hp)
  rw [hstrict] at ho ⊢
  rw [hloose]
  obtain ⟨evaluation, he, rfl⟩ := exists_of_map_eq_ok ho
  -- judging and exploding do not look at the policy
  obtain ⟨evaluation', he'⟩ := Evaluation.exists_of_clamp source (C := C) he
  have hroll := fun policy => Formula.baseTerms_roll_combineWith source C.explosions policy hbase
    request.modifiers s
  have hfirst := Outcome.startsWith_ofEvaluation source { C with bounds := .reject } request hbase s
    evaluation
  have hsecond := Outcome.startsWith_ofEvaluation source { C with bounds := .clamp } request hbase s
    evaluation'
  refine ⟨_, congrArg (Except.map _) he', fun index m hm => ⟨?_, ?_⟩,
    (hroll .clamp).trans (hroll .reject).symm, hsecond.criticals.trans hfirst.criticals.symm,
    hsecond.fumbles.trans hfirst.fumbles.symm, fun hsame => ?_⟩
  · exact Outcome.inert_ofEvaluation_iff source { C with bounds := .reject } request hbase s
      evaluation hm
  · exact Outcome.inert_ofEvaluation_iff source { C with bounds := .clamp } request hbase s
      evaluation' hm
  · have hcombined := base.combineWith_clamp hsame
    rw [hcombined] at he'
    obtain rfl : evaluation = evaluation' := Except.ok.inj (he.symm.trans he')
    dsimp only
    rw [hcombined]
    refine ⟨rfl, rfl, ?_⟩
    exact List.rel_append (Modifier.forall₂_inertWarnings_clamp hsame)
      (List.forall₂_same.mpr fun w _ => w.sameButReason_refl)

/-- Three dice of one side roll only when they are clamped to coins. A second expression is refused
for its dice or, with these clamped, for its constant: alone it changes nothing but the reason. -/
theorem resolve_clamp_coins :
    let coins : Modifier := ⟨"Coins", .dice "3d1"⟩
    let huge : Modifier := ⟨"Huge", .dice "500d6+9223372036854775808"⟩
    let outcome policy modifiers := (resolve Script.source { bounds := policy }
      ⟨none, modifiers, none, none⟩ ⟨[20, 1, 2, 2], 0⟩).1
    Formula.NeedsClamp "3d1" ∧
    (∃ o o', outcome .reject [huge, coins] = .ok o ∧ outcome .clamp [huge, coins] = .ok o' ∧
      o.Inert 1 coins ∧ ¬ o'.Inert 1 coins ∧ o.criticals = 1 ∧ o'.criticals = 1) ∧
    ∃ o o', outcome .reject [huge] = .ok o ∧ outcome .clamp [huge] = .ok o' ∧
      o' = { o with warnings := o'.warnings } ∧
      o.warnings = [.inertModifier "Huge"
        "too many dice: '500d6' (dice count must be between 1 and 100)"] ∧
      ∃ reason, o'.warnings = [.inertModifier "Huge" reason] := by
  intro coins huge outcome
  obtain ⟨-, honly, hboth⟩ := resolve_clamp Script.source {} ⟨none, [huge, coins], none, none⟩
    ⟨[20, 1, 2, 2], 0⟩
  obtain ⟨-, -, halone⟩ := resolve_clamp Script.source {} ⟨none, [huge], none, none⟩
    ⟨[20, 1, 2, 2], 0⟩
  have hcoins : coins.isInert .reject = true ∧ coins.isInert .clamp = false := by decide
  have hhuge : huge.isInert .clamp = huge.isInert .reject := by decide
  refine ⟨?_, ?_, ?_⟩
  · obtain ⟨expression, hvalue, hneeds⟩ := (honly coins).mp hcoins
    cases hvalue
    exact hneeds
  · have hresolve : (outcome .reject [huge, coins]).map Outcome.criticals = .ok 1 := by decide
    obtain ⟨o, ho, hcriticals⟩ := exists_of_map_eq_ok hresolve
    obtain ⟨o', ho', hinert, -, hsame, -⟩ := hboth o ho
    obtain ⟨hstrict, hloose⟩ := hinert 1 coins rfl
    refine ⟨o, o', ho, ho', hstrict.mpr hcoins.1, fun h => ?_, hcriticals,
      hsame.trans hcriticals⟩
    exact absurd (hloose.mp h) (Bool.eq_false_iff.mp hcoins.2)
  · have hresolve : (outcome .reject [huge]).map Outcome.warnings = .ok [.inertModifier "Huge"
        "too many dice: '500d6' (dice count must be between 1 and 100)"] := by decide
    obtain ⟨o, ho, hwarnings⟩ := exists_of_map_eq_ok hresolve
    obtain ⟨o', ho', -, -, -, -, hsame⟩ := halone o ho
    obtain ⟨-, heq, hreasons⟩ := hsame (by simpa using hhuge)
    refine ⟨o, o', ho, ho', heq, hwarnings, ?_⟩
    rw [hwarnings, List.forall₂_cons_left_iff] at hreasons
    obtain ⟨w, rest, hw, hrest, hcons⟩ := hreasons
    obtain rfl := List.forall₂_nil_left_iff.mp hrest
    cases hw with
    | inertModifier _ _ reason => exact ⟨reason, hcons⟩

end Tabletop
