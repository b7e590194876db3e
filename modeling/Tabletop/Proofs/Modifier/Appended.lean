import Tabletop.Proofs.Formula.RoundTrip
import Tabletop.Proofs.Groups
import Tabletop.Proofs.Modifier.Kinds
import Tabletop.Proofs.Outcome

/-!
# Modifiers come after the formula

The terms of modifiers stand behind the terms of the formula and are rolled after them, one modifier
after the other. What a formula rolls is therefore the same with all modifiers, and what a modifier
rolls is the same with all modifiers behind it.

* `exists_rollTerms_append` — what is rolled first does not depend on what is rolled after it.
* `Formula.exists_roll_combineWith` — the roll of a combined formula starts with the formula's own.
* `Formula.filter_roll_combineWith` — more modifiers do not change what the first ones roll.
* `baseLine` — what a line shows of the formula itself; `exists_describe_eq` finds it in front.
* `Outcome.StartsWith` — an outcome that starts with a roll of the formula.
* `resolve_modifiers` — two requests that differ in their modifiers, side by side.
-/

namespace Tabletop

/-! ## Rolling what comes after -/

section Rolling

variable {σ : Type} (source : DieSource σ) (explosions : Explosions)

/-- **What is rolled first does not depend on what is rolled after it.** -/
theorem exists_rollTerms_append (ts us : List Term) (s : σ) :
    ∃ others, (rollTerms source explosions (ts ++ us) s).1 =
        (rollTerms source explosions ts s).1 ++ others ∧
      others.map RolledTerm.term = us := by
  refine ⟨_, ?_, map_term_rollTerms source explosions us (rollTerms source explosions ts s).2⟩
  rw [rollTerms_append]

/-- Terms of other origins that are rolled after do not matter for an origin. -/
theorem filter_origin_rollTerms_append {o : Origin} {us : List Term}
    (h : ∀ u ∈ us, u.origin ≠ o) (ts : List Term) (s : σ) :
    ((rollTerms source explosions (ts ++ us) s).1.filter fun t => t.term.origin = o) =
      (rollTerms source explosions ts s).1.filter fun t => t.term.origin = o := by
  obtain ⟨others, hroll, hterm⟩ := exists_rollTerms_append source explosions ts us s
  have hothers : (others.filter fun t => t.term.origin = o) = [] := by
    refine List.filter_eq_nil_iff.mpr fun t ht horigin => ?_
    exact h t.term (hterm ▸ List.mem_map_of_mem ht) (of_decide_eq_true horigin)
  rw [hroll, List.filter_append, hothers, List.append_nil]

end Rolling

/-! ## The combined formula -/

namespace Modifier

variable {policy : BoundsPolicy}

theorem addedFrom_append (first : Nat) (before after : List Modifier) :
    addedFrom policy first (before ++ after) =
      addedFrom policy first before ++ addedFrom policy (first + before.length) after := by
  induction before generalizing first with
  | nil => rfl
  | cons m before ih =>
    rw [List.cons_append, addedFrom_cons, ih, addedFrom_cons, List.append_assoc, List.length_cons,
      Nat.add_assoc, Nat.add_comm 1]

/-- The added terms are no base terms. -/
theorem origin_ne_base {modifiers : List Modifier} {t : Term}
    (h : t ∈ addedFrom policy 0 modifiers ++ netTerms modifiers) : t.origin ≠ .base := by
  rcases List.mem_append.mp h with h | h
  · obtain ⟨k, -, -, -, horigin⟩ := origin_of_mem_addedFrom h
    rw [horigin]
    exact nofun
  · rw [origin_of_mem_netTerms h]
    exact nofun

/-- Behind the terms of the modifiers up to some place, no term comes from one of these. -/
theorem origin_ne_of_lt {modifiers after : List Modifier} {first index : Nat}
    (hindex : index < first) {t : Term}
    (h : t ∈ addedFrom policy first after ++ netTerms modifiers) : t.origin ≠ .modifier index := by
  rcases List.mem_append.mp h with h | h
  · obtain ⟨k, -, -, -, horigin⟩ := origin_of_mem_addedFrom h
    rw [horigin, Ne, Origin.modifier.injEq]
    omega
  · rw [origin_of_mem_netTerms h]
    exact nofun

end Modifier

namespace Formula

variable {σ : Type} (source : DieSource σ) (explosions : Explosions) (policy : BoundsPolicy)
  {base : Formula}

/-- The roll of a combined formula starts with the roll of the formula itself. -/
theorem exists_roll_combineWith (base : Formula) (modifiers : List Modifier) (s : σ) :
    ∃ others, ((base.combineWith policy modifiers).roll source explosions s).1 =
      (base.roll source explosions s).1 ++ others := by
  obtain ⟨others, hroll, -⟩ := exists_rollTerms_append source explosions base.terms
    (Modifier.addedFrom policy 0 modifiers ++ Modifier.netTerms modifiers) s
  refine ⟨others, ?_⟩
  rw [roll, combineWith, List.append_assoc, hroll, roll]

/-- Its base terms are that roll. -/
theorem baseTerms_roll_combineWith (hbase : ∀ t ∈ base.terms, t.origin = .base)
    (modifiers : List Modifier) (s : σ) :
    baseTerms ((base.combineWith policy modifiers).roll source explosions s).1 =
      (base.roll source explosions s).1 := by
  rw [baseTerms, roll, combineWith, List.append_assoc,
    filter_origin_rollTerms_append source explosions fun _ => Modifier.origin_ne_base]
  refine List.filter_eq_self.mpr fun t ht => decide_eq_true ?_
  exact hbase t.term (term_mem source explosions ht)

/-- **More modifiers do not change what the first ones roll.** -/
theorem filter_roll_combineWith {before : List Modifier} {index : Nat}
    (hindex : index < before.length) (after : List Modifier) (s : σ) :
    (((base.combineWith policy (before ++ after)).roll source explosions s).1.filter
        fun t => t.term.origin = .modifier index) =
      ((base.combineWith policy before).roll source explosions s).1.filter
        fun t => t.term.origin = .modifier index := by
  -- both rolls start with the formula and the modifiers in front; the rest is from elsewhere
  have hindex' : index < 0 + before.length := by rwa [Nat.zero_add]
  have hnet : ∀ t ∈ Modifier.netTerms before, t.origin ≠ .modifier index := by
    intro t ht
    rw [Modifier.origin_of_mem_netTerms ht]
    exact nofun
  have hfirst := filter_origin_rollTerms_append source explosions hnet
    (base.terms ++ Modifier.addedFrom policy 0 before) s
  rw [roll, combineWith, Modifier.addedFrom_append, ← List.append_assoc, List.append_assoc,
    filter_origin_rollTerms_append source explosions fun _ => Modifier.origin_ne_of_lt hindex']
  exact hfirst.symm

end Formula

/-! ## The start of the line -/

/-- More parts go behind those that are there. -/
theorem exists_spaced_append (parts others : List (List Char)) :
    ∃ rest, spaced (parts ++ others) = spaced parts ++ rest := by
  induction parts with
  | nil => exact ⟨spaced others, rfl⟩
  | cons part parts ih =>
    cases parts with
    | nil =>
      cases others with
      | nil => exact ⟨[], (List.append_nil _).symm⟩
      | cons other others => exact ⟨' ' :: spaced (other :: others), by simp [spaced]⟩
    | cons next parts =>
      obtain ⟨rest, hrest⟩ := ih
      refine ⟨rest, ?_⟩
      have hspaced : ∀ parts, spaced (part :: next :: parts) =
          part ++ ' ' :: spaced (next :: parts) := fun parts => by simp [spaced]
      rw [List.cons_append, List.cons_append, hspaced, hspaced, ← List.cons_append, hrest]
      simp

/-- What a line shows of the formula itself: the groups of its dice, then its constants. -/
def baseLine (rolled : List RolledTerm) : String :=
  String.ofList ([' '].intercalate (baseParts rolled))

theorem baseLine_baseTerms (rolled : List RolledTerm) :
    baseLine (baseTerms rolled) = baseLine rolled := by
  have hparts := breakdownParts_baseTerms rolled []
  simp only [breakdownParts_eq, List.map_nil, List.append_nil] at hparts
  rw [baseLine, hparts, baseLine]

/-- Every line starts with what it shows of the formula itself. -/
theorem exists_describe_eq (rolled : List RolledTerm) (evaluation : Evaluation)
    (descriptions : List String) :
    ∃ rest, describe rolled evaluation descriptions = baseLine rolled ++ rest := by
  obtain ⟨rest, hrest⟩ := exists_spaced_append (baseParts rolled) (descriptions.map String.toList)
  refine ⟨String.ofList (rest ++ verdictChars evaluation), ?_⟩
  rw [describe, breakdownParts_eq, hrest, List.append_assoc, String.ofList_append, baseLine, spaced]

/-! ## The outcome -/

/-- An outcome that starts with a roll: those terms come first, their dice alone are counted, and
they alone are in front of the line. -/
structure Outcome.StartsWith (roll : List RolledTerm) (o : Outcome) : Prop where
  rolledTerms : o.rolledTerms.take roll.length = roll
  criticals : o.criticals = criticalCount roll
  fumbles : o.fumbles = fumbleCount roll
  description : ∃ rest, o.description = baseLine roll ++ rest

/-- **Every outcome starts with the roll of the formula**, whatever the modifiers. -/
theorem Outcome.startsWith_ofEvaluation {σ : Type} (source : DieSource σ) (C : Config)
    (request : Request) {base : Formula} (hbase : ∀ t ∈ base.terms, t.origin = .base) (s : σ)
    (evaluation : Evaluation) :
    let F := base.combineWith C.bounds request.modifiers
    (ofEvaluation C request F (F.roll source C.explosions s).1 evaluation).StartsWith
      (base.roll source C.explosions s).1 := by
  intro F
  have hroll := Formula.baseTerms_roll_combineWith source C.explosions C.bounds hbase
    request.modifiers s
  rw [← hroll]
  refine ⟨?_, ?_, ?_, ?_⟩
  · obtain ⟨others, hothers⟩ :=
      Formula.exists_roll_combineWith source C.explosions C.bounds base request.modifiers s
    rw [hroll]
    dsimp only [ofEvaluation]
    rw [hothers, List.take_left]
  · exact (criticalCount_baseTerms _).symm
  · exact (fumbleCount_baseTerms _).symm
  · rw [baseLine_baseTerms]
    exact exists_describe_eq _ _ _

/-- **Modifiers do not disturb the roll of the formula.** Two requests that differ in their
modifiers alone roll the same for the formula's own terms, which come first; they count the same
critical and fumbled dice, and their lines start alike. When one list of modifiers continues the
other, the modifiers of both roll the same. -/
theorem resolve_modifiers {σ : Type} {source : DieSource σ} {config : Config} (request : Request)
    {s : σ} {first second : List Modifier} {o o' : Outcome}
    (h : (resolve source config { request with modifiers := first } s).1 = .ok o)
    (h' : (resolve source config { request with modifiers := second } s).1 = .ok o') :
    let C := config.overriddenBy request
    ∃ base, Formula.readWith C.bounds (request.formulaText C) = .ok base ∧
      let roll := (base.roll source C.explosions s).1
      o.rolledTerms.take base.terms.length = roll ∧
      o'.rolledTerms.take base.terms.length = roll ∧
      o.criticals = o'.criticals ∧ o.fumbles = o'.fumbles ∧
      (∃ rest rest', o.description = baseLine roll ++ rest ∧
        o'.description = baseLine roll ++ rest') ∧
      (first <+: second → ∀ index < first.length,
        (o.rolledTerms.filter fun t => t.term.origin = .modifier index) =
          o'.rolledTerms.filter fun t => t.term.origin = .modifier index) := by
  intro C
  obtain ⟨base, evaluation, hread, -, rfl⟩ := exists_of_resolve_ok h
  obtain ⟨base', evaluation', hread', -, rfl⟩ := exists_of_resolve_ok h'
  -- the text of the formula is the same in both, and so is the formula
  obtain rfl : base = base' := Except.ok.inj (hread.symm.trans hread')
  have hbase := (Formula.wellFormed_of_readWith hread).base
  have hlength : (base.roll source C.explosions s).1.length = base.terms.length := by
    rw [← List.length_map (f := RolledTerm.term), Formula.roll, map_term_rollTerms]
  have hfirst := Outcome.startsWith_ofEvaluation source C { request with modifiers := first }
    hbase s evaluation
  have hsecond := Outcome.startsWith_ofEvaluation source C { request with modifiers := second }
    hbase s evaluation'
  refine ⟨base, hread, ?_, ?_, ?_, ?_, ?_, ?_⟩
  · rw [← hlength]
    exact hfirst.rolledTerms
  · rw [← hlength]
    exact hsecond.rolledTerms
  · exact hfirst.criticals.trans hsecond.criticals.symm
  · exact hfirst.fumbles.trans hsecond.fumbles.symm
  · obtain ⟨rest, hrest⟩ := hfirst.description
    obtain ⟨rest', hrest'⟩ := hsecond.description
    exact ⟨rest, rest', hrest, hrest'⟩
  · rintro ⟨after, rfl⟩ index hindex
    exact (Formula.filter_roll_combineWith source C.explosions C.bounds hindex after s).symm

/-- A twenty that explodes and a constant, with "Bless" alone and with two more modifiers behind it:
the base terms and the die of "Bless" show the same. -/
theorem resolve_modifiers_bless :
    let bless : Modifier := ⟨"Bless", .dice "1d4"⟩
    let more : List Modifier := [bless, ⟨"Str", .integer 3⟩, ⟨"Sneak", .dice "2d6"⟩]
    let outcome modifiers := (resolve Script.source { exploding := true }
      ⟨some "1d20+2", modifiers, none, none⟩ ⟨[20, 5, 3, 6, 2, 1], 0⟩).1
    let base : List RolledTerm :=
      [⟨.dice .plus 1 20, .dice [⟨[20, 5], false⟩]⟩,
        ⟨⟨.plus, .constant 2, .base⟩, .constant 2⟩]
    let die : RolledTerm := ⟨⟨.plus, .dice 1 4, .modifier 0⟩, .dice [⟨[3], false⟩]⟩
    ∃ o o', outcome [bless] = .ok o ∧ outcome more = .ok o' ∧ [bless] <+: more ∧
      o.rolledTerms.take 2 = base ∧ o'.rolledTerms.take 2 = base ∧
      o.criticals = 1 ∧ o'.criticals = 1 ∧
      (o.rolledTerms.filter fun t => t.term.origin = .modifier 0) = [die] ∧
      (o'.rolledTerms.filter fun t => t.term.origin = .modifier 0) = [die] := by
  intro bless more outcome base die
  have h : ∃ o, outcome [bless] = .ok o ∧ o.rolledTerms = base ++ [die] ∧ o.criticals = 1 :=
    ⟨⟨"1d20+2+1d4", 30, none, base ++ [die], "1d20 [[20+5]] +2 +3 Bless (1d4 [3]) = 30", 1, 0, []⟩,
      by decide, rfl, rfl⟩
  have h' : ∃ o, outcome more = .ok o :=
    ⟨⟨"1d20+2+1d4+2d6+3", 42, none,
      base ++ [die, ⟨⟨.plus, .dice 2 6, .modifier 2⟩, .dice [⟨[6, 2], false⟩, ⟨[1], false⟩]⟩,
        ⟨⟨.plus, .constant 3, .netModifier⟩, .constant 3⟩],
      "1d20 [[20+5]] +2 +3 Bless (1d4 [3]) +3 Str +9 Sneak (2d6 [[6+2], 1]) = 42", 1, 0, []⟩,
      by decide⟩
  obtain ⟨o, ho, hrolled, hcriticals⟩ := h
  obtain ⟨o', ho'⟩ := h'
  have hprefix : [bless] <+: more := ⟨_, rfl⟩
  obtain ⟨f, hread, htake, htake', hcount, -, -, hfilter⟩ :=
    resolve_modifiers ⟨some "1d20+2", [], none, none⟩ ho ho'
  have hf : Formula.readWith .reject "1d20+2" =
      .ok ⟨[.dice .plus 1 20, ⟨.plus, .constant 2, .base⟩]⟩ := by decide
  obtain rfl := Except.ok.inj (hf.symm.trans hread)
  have hbase : o.rolledTerms.take 2 = base := by rw [hrolled]; rfl
  have hdie : (o.rolledTerms.filter fun t => t.term.origin = .modifier 0) = [die] := by
    rw [hrolled]
    decide
  refine ⟨o, o', ho, ho', hprefix, hbase, ?_, hcriticals, ?_, hdie, ?_⟩
  · exact (htake'.trans htake.symm).trans hbase
  · exact hcount.symm.trans hcriticals
  · exact (hfilter hprefix 0 (by decide)).symm.trans hdie

end Tabletop
