import Mathlib.Data.List.Forall2
import Tabletop.Proofs.Dice.Shape
import Tabletop.Proofs.Formula.Concatenation
import Tabletop.Proofs.Modifier.Appended
import Tabletop.Proofs.Modifier.Inert

/-!
# One block for each modifier

Combining looks at what an expression reads as, describing looks for rolled terms that came from it.
Both tell the same modifiers apart, as an expression that can be read adds a term.

* `ModifierShare.listFrom_eq_map` — shares of modifiers, each from the modifier and its place.
* `Modifier.Block` — the terms that a modifier adds; `Modifier.Net` — the term of the whole numbers.
* `Formula.exists_rolled_origin_iff` — the modifiers that some rolled term came from.
* `ModifierShare.text_rolled_ne` — what was rolled is never told as invalid.
* `Formula.modifiers_accounted` — terms, warnings and descriptions of all modifiers.
-/

namespace Tabletop

/-! ## Modifiers and their places -/

theorem ModifierShare.listFrom_eq_map (rolled : List RolledTerm) (first : Nat)
    (modifiers : List Modifier) :
    listFrom rolled first modifiers =
      (modifiers.zipIdx first).map fun p => of rolled p.2 p.1 := by
  induction modifiers generalizing first with
  | nil => rfl
  | cons m rest ih => rw [listFrom, ih, List.zipIdx_cons, List.map_cons]

theorem length_modifierDescriptions (modifiers : List Modifier) (rolled : List RolledTerm) :
    (modifierDescriptions modifiers rolled).length = modifiers.length := by
  rw [modifierDescriptions, List.length_map, ModifierShare.listFrom_eq_map, List.length_map,
    List.length_zipIdx]

/-- The description of a modifier stands at its place. -/
theorem getElem?_modifierDescriptions {modifiers : List Modifier} {index : Nat} {m : Modifier}
    (h : modifiers[index]? = some m) (rolled : List RolledTerm) :
    (modifierDescriptions modifiers rolled)[index]? =
      some (ModifierShare.of rolled index m).text := by
  rw [modifierDescriptions, ModifierShare.listFrom_eq_map, List.map_map, List.getElem?_map,
    List.getElem?_zipIdx, h, Nat.zero_add]
  rfl

/-! ## Blocks of terms -/

namespace Modifier

/-- The terms that the modifier at a place adds. -/
inductive Block (policy : BoundsPolicy) (m : Modifier) (index : Nat) : List Term → Prop where
  /-- a whole number adds to the net alone -/
  | integer (amount : Amount) : m.value = .integer amount → Block policy m index []
  /-- an expression that can be read adds its terms, at least one, with their own signs -/
  | readable (expression : String) (f : Formula) : m.value = .dice expression →
      Formula.readWith policy expression = .ok f → f.terms ≠ [] →
      Block policy m index (f.terms.map fun t => ⟨t.sign, t.kind, .modifier index⟩)
  /-- an expression that cannot be read adds nothing -/
  | inert (expression : String) (e : FormulaError) : m.value = .dice expression →
      Formula.readWith policy expression = .error e → Block policy m index []

/-- The terms of the whole numbers together: none without a whole number, otherwise one constant,
their total; of the least amount the constant has the greatest for magnitude. -/
def Net (amounts : List Amount) (terms : List Term) : Prop :=
  (amounts = [] ∧ terms = []) ∨
    amounts ≠ [] ∧ ∃ t value, terms = [t] ∧ t.origin = .netModifier ∧
      t.constantValue? = some value ∧
      value.toInt = max (-Amount.greatest) (Amount.total 0 amounts).toInt

theorem block_addedTerms (policy : BoundsPolicy) (m : Modifier) (index : Nat) :
    m.Block policy index (m.addedTerms policy index) := by
  cases m.kind policy with
  | integer amount hvalue =>
    rw [addedTerms_of_integer hvalue]
    exact .integer amount hvalue
  | readable expression f hvalue hread =>
    rw [addedTerms_of_readable hvalue hread]
    exact .readable expression f hvalue hread (Formula.terms_ne_nil_of_readWith hread)
  | inert expression e hvalue hread =>
    rw [addedTerms_of_inert hvalue hread]
    exact .inert expression e hvalue hread

/-- The constant of an amount has that amount for value, or the one next to the least amount. -/
theorem constantValue?_constant (a : Amount) :
    ∃ value, (Term.constant a).constantValue? = some value ∧
      value.toInt = max (-Amount.greatest) a.toInt := by
  refine ⟨_, rfl, ?_⟩
  have hmagnitude := Amount.toInt_magnitude a
  have hbounds := a.toInt_bounds
  have hzero : (0 : Amount).toInt = 0 := rfl
  have hleast : Int64.minValue.toInt = -9223372036854775808 := rfl
  rw [Amount.least, Amount.greatest] at hbounds
  rw [Term.constant, Sign.toInt_apply, hmagnitude, Amount.greatest]
  · by_cases hneg : a < 0
    · rw [if_pos hneg, Sign.signed]
      rw [Int64.lt_iff_toInt_lt, hzero] at hneg
      omega
    · rw [if_neg hneg, Sign.signed]
      rw [Int64.lt_iff_toInt_lt, hzero] at hneg
      omega
  · intro _ h
    rw [h, hleast] at hmagnitude
    omega

theorem netTerms_of_ne_nil {modifiers : List Modifier} (h : modifiers.filterMap integer? ≠ []) :
    netTerms modifiers = [(Term.constant (Amount.total 0 (modifiers.filterMap integer?))).withOrigin
      .netModifier] := by
  obtain ⟨a, rest, hamounts⟩ := List.exists_cons_of_ne_nil h
  rw [netTerms, net?, hamounts]

theorem net_netTerms (modifiers : List Modifier) :
    Net (modifiers.filterMap integer?) (netTerms modifiers) := by
  by_cases h : modifiers.filterMap integer? = []
  · exact .inl ⟨h, netTerms_eq_nil_iff.mpr h⟩
  · obtain ⟨value, hvalue, hint⟩ :=
      constantValue?_constant (Amount.total 0 (modifiers.filterMap integer?))
    exact .inr ⟨h, _, value, netTerms_of_ne_nil h, rfl, hvalue, hint⟩

end Modifier

/-! ## Origins of terms -/

namespace Modifier

variable {policy : BoundsPolicy}

/-- Only an expression that can be read adds terms. -/
theorem addedTerms_ne_nil_iff {m : Modifier} (index : Nat) :
    m.addedTerms policy index ≠ [] ↔
      ∃ expression f, m.value = .dice expression ∧
        Formula.readWith policy expression = .ok f := by
  constructor
  · intro hne
    cases m.kind policy with
    | integer amount hvalue => exact absurd (addedTerms_of_integer hvalue index) hne
    | readable expression f hvalue hread => exact ⟨expression, f, hvalue, hread⟩
    | inert expression e hvalue hread => exact absurd (addedTerms_of_inert hvalue hread index) hne
  · rintro ⟨expression, f, hvalue, hread⟩
    rw [addedTerms_of_readable hvalue hread]
    exact List.map_eq_nil_iff.not.mpr (Formula.terms_ne_nil_of_readWith hread)

/-- The terms with a place for origin are those that the modifier there adds. -/
theorem mem_combineWith_iff {base : Formula} (hbase : ∀ t ∈ base.terms, t.origin = .base)
    {modifiers : List Modifier} {index : Nat} {m : Modifier} (hm : modifiers[index]? = some m)
    {t : Term} :
    t ∈ (base.combineWith policy modifiers).terms ∧ t.origin = .modifier index ↔
      t ∈ m.addedTerms policy index := by
  constructor
  · rintro ⟨ht, horigin⟩
    rcases Formula.mem_combineWith.mp ht with ht | ⟨place, m', hplace, ht⟩ | ht
    · rw [hbase t ht] at horigin
      cases horigin
    · rw [(origin_of_mem_addedTerms ht).1, Origin.modifier.injEq] at horigin
      subst horigin
      obtain rfl : m = m' := Option.some.inj (hm.symm.trans hplace)
      exact ht
    · rw [origin_of_mem_netTerms ht] at horigin
      cases horigin
  · intro ht
    exact ⟨Formula.mem_combineWith.mpr (.inr (.inl ⟨index, m, hm, ht⟩)),
      (origin_of_mem_addedTerms ht).1⟩

end Modifier

/-! ## Descriptions -/

theorem Decimal.blank_notMem_signed (n : Int) : ' ' ∉ signed n :=
  fun h => absurd (mem_signed h) (by decide)

theorem Decimal.exists_digits_eq_cons (n : Nat) :
    ∃ c rest, digits n = c :: rest ∧ c.isDigit = true := by
  obtain ⟨c, rest, hdigits⟩ := List.exists_cons_of_ne_nil (digits_ne_nil n)
  exact ⟨c, rest, hdigits, isDigit_of_mem_digits (hdigits ▸ List.mem_cons_self)⟩

/-- A term is written with a digit or a minus sign in front, hence with no letter. -/
theorem TermKind.exists_chars_eq_cons (k : TermKind) :
    ∃ c rest, k.chars = c :: rest ∧ (c = '-' ∨ c.isDigit = true) := by
  cases k with
  | dice count sides =>
    obtain ⟨c, rest, hdigits, hc⟩ := Decimal.exists_digits_eq_cons count.toNat
    exact ⟨c, _, by rw [chars, hdigits, List.cons_append], .inr hc⟩
  | constant value =>
    obtain ⟨c, rest, hdigits, hc⟩ := Decimal.exists_digits_eq_cons value.toInt.natAbs
    rw [chars, Decimal.integer]
    split
    · exact ⟨'-', _, rfl, .inl rfl⟩
    · exact ⟨c, rest, hdigits, .inr hc⟩

theorem filter_origin_eq_nil {rolled : List RolledTerm} {o : Origin}
    (h : ∀ t ∈ rolled, t.term.origin ≠ o) : (rolled.filter fun t => t.term.origin = o) = [] :=
  List.filter_eq_nil_iff.mpr fun t ht horigin => h t ht (of_decide_eq_true horigin)

namespace ModifierShare

variable {rolled : List RolledTerm} {index : Nat} {m : Modifier}

theorem of_integer {amount : Amount} (h : m.value = .integer amount) :
    of rolled index m = .integer amount m.name := by
  rw [of, h]

theorem of_inert {expression : String} (h : m.value = .dice expression)
    (hnone : ∀ t ∈ rolled, t.term.origin ≠ .modifier index) :
    of rolled index m = .inert m.name expression := by
  rw [of, h]
  dsimp only
  rw [filter_origin_eq_nil hnone]

theorem of_rolled {expression : String} (h : m.value = .dice expression)
    (hsome : ∃ t ∈ rolled, t.term.origin = .modifier index) :
    of rolled index m =
      .rolled m.name (rolled.filter fun t => t.term.origin = .modifier index) := by
  obtain ⟨t, ht, horigin⟩ := hsome
  have hmem : t ∈ rolled.filter fun t => t.term.origin = .modifier index :=
    List.mem_filter.mpr ⟨ht, decide_eq_true horigin⟩
  rw [of, h]
  dsimp only
  cases hfilter : rolled.filter fun t => t.term.origin = .modifier index with
  | nil =>
    rw [hfilter] at hmem
    cases hmem
  | cons t rest => rfl

/-- The terms of an expression start with no letter. -/
theorem exists_spaced_termParts (t : RolledTerm) (rest : List RolledTerm) :
    ∃ c others, spaced (termParts (t :: rest)) = c :: others ∧ (c = '-' ∨ c.isDigit = true) := by
  obtain ⟨c, chars, hchars, hc⟩ := t.term.kind.exists_chars_eq_cons
  have hterm : ∃ others, termChars t = c :: others := by
    rw [termChars, hchars]
    split
    · exact ⟨_, List.cons_append⟩
    · exact ⟨_, rfl⟩
  have hpart : ∃ c others, signedChars t.term.sign true (termChars t) = c :: others ∧
      (c = '-' ∨ c.isDigit = true) := by
    obtain ⟨others, hterm⟩ := hterm
    rw [signedChars]
    cases t.term.sign with
    | plus => exact ⟨c, others, hterm, hc⟩
    | minus => exact ⟨'-', termChars t, rfl, .inl rfl⟩
  obtain ⟨c, others, hpart, hc⟩ := hpart
  obtain ⟨after, hafter⟩ := exists_spaced_append [signedChars t.term.sign true (termChars t)]
    (rest.map fun t => signedChars t.term.sign false (termChars t))
  refine ⟨c, others ++ after, ?_, hc⟩
  rw [termParts, ← List.singleton_append, hafter, hpart]
  simp [spaced]

/-- **What was rolled is never told as invalid.** -/
theorem text_rolled_ne (name expression : String) {terms : List RolledTerm} (h : terms ≠ []) :
    (ModifierShare.rolled name terms).text ≠ (inert name expression).text := by
  intro heq
  obtain ⟨t, rest, rfl⟩ := List.exists_cons_of_ne_nil h
  have hchars := String.toList_inj.mpr heq
  rw [text, text, String.toList_ofList, String.toList_ofList] at hchars
  -- both texts are cut at the blank behind the amount, and then behind the name
  obtain ⟨-, hlabel⟩ := Sequence.append_cons_inj_of_notMem (Decimal.blank_notMem_signed _)
    (Decimal.blank_notMem_signed _) hchars
  obtain ⟨c, others, hspaced, hc⟩ := exists_spaced_termParts t rest
  have htail : " (".toList ++ spaced (termParts (t :: rest)) ++ [')'] =
      " (invalid: ".toList ++ expression.toList ++ [')'] := by
    rw [label, label] at hlabel
    simp only [List.append_assoc] at hlabel ⊢
    exact List.append_cancel_left hlabel
  rw [hspaced] at htail
  have hi : c = 'i' := by
    have := congrArg (fun cs => cs[2]?) htail
    simpa using this
  rw [hi] at hc
  exact absurd hc (by decide)

theorem text_integer (amount : Amount) (name : String) :
    (integer amount name).text = amount.signedText ++ " " ++ name := by
  rw [← String.toList_inj, text, String.toList_ofList, Amount.signedText]
  simp [ModifierShare.amount, label]

/-- An expression is told as invalid exactly when no term came from it. -/
theorem text_of_eq_iff {expression : String} (h : m.value = .dice expression) :
    (of rolled index m).text = "+0 " ++ m.name ++ " (invalid: " ++ expression ++ ")" ↔
      ∀ t ∈ rolled, t.term.origin ≠ .modifier index := by
  rw [← text_inert]
  by_cases hsome : ∃ t ∈ rolled, t.term.origin = .modifier index
  · rw [of_rolled h hsome]
    obtain ⟨t, ht, horigin⟩ := hsome
    refine iff_of_false (text_rolled_ne _ _ ?_) fun hnone => hnone t ht horigin
    exact List.ne_nil_of_mem (List.mem_filter.mpr ⟨ht, decide_eq_true horigin⟩)
  · have hnone : ∀ t ∈ rolled, t.term.origin ≠ .modifier index :=
      fun t ht horigin => hsome ⟨t, ht, horigin⟩
    rw [of_inert h hnone]
    exact iff_of_true rfl hnone

end ModifierShare

/-! ## The account -/

namespace Formula

variable {σ : Type} (source : DieSource σ) (explosions : Explosions) (policy : BoundsPolicy)
  {base : Formula} (hbase : ∀ t ∈ base.terms, t.origin = .base) {modifiers : List Modifier}
  {index : Nat} {m : Modifier} (hm : modifiers[index]? = some m)

include hbase hm

/-- Some rolled term came from a modifier exactly when the modifier adds terms. -/
theorem exists_rolled_origin_iff (s : σ) :
    (∃ t ∈ ((base.combineWith policy modifiers).roll source explosions s).1,
        t.term.origin = .modifier index) ↔ m.addedTerms policy index ≠ [] := by
  have hterm := (base.combineWith policy modifiers).map_term_roll source explosions s
  constructor
  · rintro ⟨t, ht, horigin⟩
    have hmem : t.term ∈ (base.combineWith policy modifiers).terms :=
      term_mem source explosions ht
    exact List.ne_nil_of_mem ((Modifier.mem_combineWith_iff hbase hm).mp ⟨hmem, horigin⟩)
  · intro hne
    obtain ⟨t, ht⟩ := List.exists_mem_of_ne_nil _ hne
    obtain ⟨hmem, horigin⟩ := (Modifier.mem_combineWith_iff hbase hm).mpr ht
    rw [← hterm] at hmem
    obtain ⟨r, hr, rfl⟩ := List.mem_map.mp hmem
    exact ⟨r, hr, horigin⟩

/-- No rolled term came from an expression exactly when it cannot be read. -/
theorem forall_rolled_origin_ne_iff {expression : String} (hvalue : m.value = .dice expression)
    (s : σ) :
    (∀ t ∈ ((base.combineWith policy modifiers).roll source explosions s).1,
        t.term.origin ≠ .modifier index) ↔
      ∃ e, readWith policy expression = .error e := by
  have hsome := exists_rolled_origin_iff source explosions policy hbase hm s
  constructor
  · intro hnone
    cases hread : readWith policy expression with
    | error e => exact ⟨e, rfl⟩
    | ok f =>
      have hne := (Modifier.addedTerms_ne_nil_iff index).mpr ⟨expression, f, hvalue, hread⟩
      obtain ⟨t, ht, horigin⟩ := hsome.mpr hne
      exact absurd horigin (hnone t ht)
  · rintro ⟨e, hread⟩ t ht horigin
    exact hsome.mp ⟨t, ht, horigin⟩ (Modifier.addedTerms_of_inert hvalue hread index)

end Formula

/-- **Every modifier is accounted for exactly once.** The combined formula is the formula itself,
one block of terms for each modifier in order, and the term of the whole numbers; there is one
warning for each expression that cannot be read, in order; and each modifier has one description, at
its place. That of an expression calls it invalid exactly when it cannot be read, which is when no
rolled term came from it. -/
theorem Formula.modifiers_accounted {σ : Type} (source : DieSource σ) (explosions : Explosions)
    (policy : BoundsPolicy) {base : Formula} (hbase : ∀ t ∈ base.terms, t.origin = .base)
    (modifiers : List Modifier) (s : σ) :
    let combined := (base.combineChecked policy modifiers).1
    let warnings := (base.combineChecked policy modifiers).2
    let rolled := (combined.roll source explosions s).1
    let descriptions := modifierDescriptions modifiers rolled
    (∃ blocks net, combined.terms = base.terms ++ blocks.flatten ++ net ∧
      List.Forall₂ (fun p block => p.1.Block policy p.2 block) modifiers.zipIdx blocks ∧
      Modifier.Net (modifiers.filterMap Modifier.integer?) net) ∧
    List.Forall₂ (fun m w => ∃ expression e, m.value = .dice expression ∧
        readWith policy expression = .error e ∧ w = .inertModifier m.name e.message)
      (modifiers.filter (Modifier.isInert policy)) warnings ∧
    descriptions.length = modifiers.length ∧
    ∀ index m, modifiers[index]? = some m → ∃ d, descriptions[index]? = some d ∧
      (∀ amount, m.value = .integer amount → d = amount.signedText ++ " " ++ m.name) ∧
      ∀ expression, m.value = .dice expression →
        (d = "+0 " ++ m.name ++ " (invalid: " ++ expression ++ ")" ↔
          ∃ e, readWith policy expression = .error e) ∧
        ((∃ e, readWith policy expression = .error e) ↔
          ∀ t ∈ rolled, t.term.origin ≠ .modifier index) := by
  intro combined warnings rolled descriptions
  refine ⟨⟨modifiers.zipIdx.map fun p => p.1.addedTerms policy p.2, Modifier.netTerms modifiers,
    ?_, ?_, Modifier.net_netTerms modifiers⟩, Modifier.forall₂_inertWarnings modifiers,
    length_modifierDescriptions modifiers rolled, ?_⟩
  · rw [← List.flatMap_def, ← Modifier.addedFrom_eq_flatMap]
    rfl
  · rw [List.forall₂_map_right_iff, List.forall₂_same]
    exact fun p _ => Modifier.block_addedTerms policy p.1 p.2
  · intro index m hm
    refine ⟨_, getElem?_modifierDescriptions hm rolled, ?_, ?_⟩
    · intro amount hvalue
      rw [ModifierShare.of_integer hvalue, ModifierShare.text_integer]
    · intro expression hvalue
      have hnone := forall_rolled_origin_ne_iff source explosions policy hbase hm hvalue s
      exact ⟨(ModifierShare.text_of_eq_iff hvalue).trans hnone, hnone.symm⟩

/-- A mistyped expression between whole numbers is told as invalid, an expression that rolled is
not; the net of the whole numbers stops at the least amount, of which the magnitude is shown. -/
theorem Formula.modifiers_accounted_typo :
    let base : Formula := ⟨[.dice .plus 1 20]⟩
    let modifiers : List Modifier := [⟨"Doom", .integer Int64.minValue⟩, ⟨"Typo", .dice "1x4"⟩,
      ⟨"Bless", .dice "1d4-1"⟩, ⟨"Woe", .integer (-1)⟩]
    let rolled := ((base.combineWith .reject modifiers).roll Script.source .off ⟨[14, 3], 0⟩).1
    let descriptions := modifierDescriptions modifiers rolled
    (∀ t ∈ base.terms, t.origin = .base) ∧
      (∃ (blocks : List (List Term)) (net : List Term),
        (base.combineWith .reject modifiers).terms = base.terms ++ blocks.flatten ++ net ∧
          blocks.length = 4 ∧ Modifier.Net [Int64.minValue, -1] net) ∧
      descriptions[1]? = some "+0 Typo (invalid: 1x4)" ∧
      descriptions[2]? ≠ some "+0 Bless (invalid: 1d4-1)" := by
  intro base modifiers rolled descriptions
  have hbase : ∀ t ∈ base.terms, t.origin = .base := by decide
  have hinert : readWith .reject "1x4" = .error (.malformed "1x4") := by decide
  have hread : readWith .reject "1d4-1" =
      .ok ⟨[.dice .plus 1 4, ⟨.minus, .constant 1, .base⟩]⟩ := by decide
  obtain ⟨⟨blocks, net, hterms, hblocks, hnet⟩, -, -, hdescriptions⟩ :=
    modifiers_accounted Script.source .off .reject hbase modifiers ⟨[14, 3], 0⟩
  refine ⟨hbase, ⟨blocks, net, hterms, hblocks.length_eq.symm, hnet⟩, ?_, ?_⟩
  · obtain ⟨d, hd, -, htypo⟩ := hdescriptions 1 _ rfl
    exact hd.trans (congrArg some ((htypo "1x4" rfl).1.mpr ⟨_, hinert⟩))
  · obtain ⟨d, hd, -, hbless⟩ := hdescriptions 2 _ rfl
    intro heq
    obtain ⟨e, he⟩ := (hbless "1d4-1" rfl).1.mp (Option.some.inj (hd.symm.trans heq))
    rw [hread] at he
    cases he

end Tabletop
