import Tabletop.Proofs.Formula.Spelling
import Tabletop.Proofs.Sequence

/-!
# What reading a formula gives

A text is read through its spelling. Whether the result is a formula depends on the ranges of the
numbers spelled alone, and the terms of that formula hold these numbers exactly.

* `Body.InRange` — the numbers of a body are accepted under a policy.
* `Piece.Means` — a term has the sign and the numbers of a piece.
* `Formula.SpelledBy` — the terms of a formula are those of a spelling.
* `Formula.readWith_eq` — the result of reading, from the spelling.
* `Formula.readWith_grammar` — the three ways in which reading ends, and when each happens.
-/

namespace Tabletop

/-- Whether the numbers of a body are accepted: a constant has to be an amount, and dice have to be
few enough and of a supported size unless they are clamped. -/
def Body.InRange (policy : BoundsPolicy) : Body → Prop
  | .constant value => value ≤ 2 ^ 63 - 1
  | .dice count sides => policy = .reject →
    (1 ≤ count.getD 1 ∧ count.getD 1 ≤ 100) ∧ (2 ≤ sides ∧ sides ≤ 1000)

/-- A number of dice as a term holds it: the number written, under `clamp` moved into its range. -/
def BoundsPolicy.hold (policy : BoundsPolicy) (low high n : Nat) : Nat :=
  match policy with
  | .reject => n
  | .clamp => max low (min high n)

/-- The term of a piece: its sign, plus where none is written, and the numbers of its body. -/
structure Piece.Means (policy : BoundsPolicy) (p : Piece) (b : Body) (t : Term) : Prop where
  sign : t.sign = p.lead.getD .plus
  origin : t.origin = .base
  kind : match b with
    | .constant value => ∃ v, t.kind = .constant v ∧ v.toInt = value
    | .dice count sides => ∃ n m, t.kind = .dice n m ∧
      n.toNat = policy.hold 1 100 (count.getD 1) ∧ m.toNat = policy.hold 2 1000 sides

/-- The formula of a spelling: one term for each piece, in order. -/
def Formula.SpelledBy (policy : BoundsPolicy) (f : Formula) (parts : List (Piece × Body)) : Prop :=
  List.Forall₂ (fun part t => part.1.Means policy part.2 t) parts f.terms

/-- A piece means one term. -/
theorem Piece.Means.unique {policy : BoundsPolicy} {p : Piece} {b : Body} {t t' : Term}
    (h : p.Means policy b t) (h' : p.Means policy b t') : t = t' := by
  have hkind : t.kind = t'.kind := by
    cases b with
    | constant value =>
      obtain ⟨v, hv, hvalue⟩ := h.kind
      obtain ⟨v', hv', hvalue'⟩ := h'.kind
      rw [hv, hv', Int64.toInt_inj.mp (hvalue.trans hvalue'.symm)]
    | dice count sides =>
      obtain ⟨n, m, hk, hn, hm⟩ := h.kind
      obtain ⟨n', m', hk', hn', hm'⟩ := h'.kind
      rw [hk, hk', UInt32.toNat_inj.mp (hn.trans hn'.symm), UInt32.toNat_inj.mp (hm.trans hm'.symm)]
  cases t
  cases t'
  rw [Term.mk.injEq]
  exact ⟨h.sign.trans h'.sign.symm, hkind, h.origin.trans h'.origin.symm⟩

/-- A spelling is that of one formula. -/
theorem Formula.SpelledBy.unique {policy : BoundsPolicy} {parts : List (Piece × Body)}
    {f g : Formula} (hf : f.SpelledBy policy parts) (hg : g.SpelledBy policy parts) : f = g := by
  have hright : Relator.RightUnique fun (part : Piece × Body) t => part.1.Means policy part.2 t :=
    fun _ _ _ h h' => h.unique h'
  cases f
  cases g
  exact congrArg Formula.mk (List.right_unique_forall₂' hright hf hg)

/-! ## One piece -/

theorem Amount.ofInt?_natCast {n : Nat} (h : n ≤ 2 ^ 63 - 1) :
    ∃ a, ofInt? n = some a ∧ a.toInt = n := by
  have hn : least ≤ (n : Int) ∧ (n : Int) ≤ greatest := by
    rw [least, greatest]
    omega
  have ha : ofInt? n = some (Int64.ofInt n) := if_pos hn
  exact ⟨_, ha, toInt_of_ofInt? ha⟩

theorem Amount.ofInt?_natCast_eq_none {n : Nat} (h : ¬ n ≤ 2 ^ 63 - 1) : ofInt? n = none := by
  refine if_neg ?_
  rw [least, greatest]
  omega

/-- The nearest number of a range, without words. -/
theorem toNat_clampTo {low high : UInt32} (h : low ≤ high) (n : UInt32) :
    (clampTo low high n).toNat = max low.toNat (min high.toNat n.toNat) := by
  rw [UInt32.le_iff_toNat_le] at h
  rw [clampTo]
  split <;> rename_i hlow
  · rw [UInt32.lt_iff_toNat_lt] at hlow
    omega
  · rw [UInt32.lt_iff_toNat_lt] at hlow
    split <;> rename_i hhigh
    · rw [UInt32.lt_iff_toNat_lt] at hhigh
      omega
    · rw [UInt32.lt_iff_toNat_lt] at hhigh
      omega

/-- A written number as a word: itself, or the greatest word. -/
theorem toNat_ofNatClamp (n : Nat) : (UInt32.ofNatClamp n).toNat = min n (2 ^ 32 - 1) := by
  rcases Nat.lt_or_ge n UInt32.size with hlt | hge
  · rw [UInt32.toNat_ofNatClamp_of_lt hlt]
    exact (Nat.min_eq_left (Nat.le_sub_one_of_lt hlt)).symm
  · rw [UInt32.toNat_ofNatClamp_of_le hge]
    exact (Nat.min_eq_right (Nat.le_trans (Nat.sub_le _ _) hge)).symm

/-- Words that are small enough bound a number as they bound its word. -/
theorem ofNatClamp_inside_iff (low high : UInt32) (hhigh : high.toNat < 2 ^ 32 - 1) (n : Nat) :
    ¬ (UInt32.ofNatClamp n < low ∨ high < UInt32.ofNatClamp n) ↔
      low.toNat ≤ n ∧ n ≤ high.toNat := by
  have hlow := low.toNat_lt
  rw [UInt32.lt_iff_toNat_lt, UInt32.lt_iff_toNat_lt, toNat_ofNatClamp]
  omega

theorem BoundsPolicy.dice_of_inRange {policy : BoundsPolicy} {count : Option Nat} {sides : Nat}
    (h : (Body.dice count sides).InRange policy) :
    ∃ n m, policy.dice (.ofNatClamp (count.getD 1)) (.ofNatClamp sides) = .ok (n, m) ∧
      n.toNat = policy.hold 1 100 (count.getD 1) ∧ m.toNat = policy.hold 2 1000 sides := by
  cases policy with
  | clamp =>
    have hcount := toNat_clampTo (show minDice ≤ maxDice by decide) (.ofNatClamp (count.getD 1))
    have hsides := toNat_clampTo (show minSides ≤ maxSides by decide) (.ofNatClamp sides)
    rw [toNat_ofNatClamp] at hcount hsides
    -- words are far above both ranges, so that cutting off there changes nothing
    refine ⟨_, _, rfl, hcount.trans ?_, hsides.trans ?_⟩
    · change max 1 (min 100 (min (count.getD 1) (2 ^ 32 - 1))) = max 1 (min 100 (count.getD 1))
      omega
    · change max 2 (min 1000 (min sides (2 ^ 32 - 1))) = max 2 (min 1000 sides)
      omega
  | reject =>
    obtain ⟨hcount, hsides⟩ := h rfl
    refine ⟨.ofNatClamp (count.getD 1), .ofNatClamp sides, ?_, ?_, ?_⟩
    · rw [BoundsPolicy.dice,
        if_neg ((ofNatClamp_inside_iff minDice maxDice (by decide) _).mpr hcount),
        if_neg ((ofNatClamp_inside_iff minSides maxSides (by decide) _).mpr hsides)]
    · rw [toNat_ofNatClamp]
      change min (count.getD 1) (2 ^ 32 - 1) = count.getD 1
      omega
    · rw [toNat_ofNatClamp]
      change min sides (2 ^ 32 - 1) = sides
      omega

theorem BoundsPolicy.dice_of_not_inRange {policy : BoundsPolicy} {count : Option Nat} {sides : Nat}
    (h : ¬ (Body.dice count sides).InRange policy) :
    ∃ fault, policy.dice (.ofNatClamp (count.getD 1)) (.ofNatClamp sides) = .error fault := by
  cases policy with
  | clamp => exact absurd nofun h
  | reject =>
    have hcount := ofNatClamp_inside_iff minDice maxDice (by decide) (count.getD 1)
    have hsides := ofNatClamp_inside_iff minSides maxSides (by decide) sides
    rw [BoundsPolicy.dice]
    -- the count is looked at before the sides
    by_cases hc : 1 ≤ count.getD 1 ∧ count.getD 1 ≤ 100
    · have hs : ¬ (2 ≤ sides ∧ sides ≤ 1000) := fun hs => h fun _ => ⟨hc, hs⟩
      refine ⟨.dieSides, ?_⟩
      rw [if_neg (hcount.mpr hc), if_pos (not_not.mp (hsides.not.mpr hs))]
    · exact ⟨.diceCount, if_pos (not_not.mp (hcount.not.mpr hc))⟩

/-- A piece in range has the term that it means. -/
theorem Piece.term_of_inRange {policy : BoundsPolicy} (p : Piece) {b : Body}
    (h : b.InRange policy) : ∃ t, p.term policy b = .ok t ∧ p.Means policy b t := by
  cases b with
  | constant value =>
    obtain ⟨v, hv, hvalue⟩ := Amount.ofInt?_natCast h
    refine ⟨⟨p.sign, .constant v, .base⟩, ?_, ⟨rfl, rfl, v, rfl, hvalue⟩⟩
    rw [Piece.term, hv]
  | dice count sides =>
    obtain ⟨n, m, hdice, hn, hm⟩ := BoundsPolicy.dice_of_inRange h
    refine ⟨.dice p.sign n m, ?_, ⟨rfl, rfl, n, m, rfl, hn, hm⟩⟩
    rw [Piece.term, hdice]

/-- A piece out of range is refused as such. -/
theorem Piece.term_of_not_inRange {policy : BoundsPolicy} (p : Piece) {b : Body}
    (h : ¬ b.InRange policy) :
    ∃ source fault, p.term policy b = .error (.outOfRange source fault) := by
  cases b with
  | constant value =>
    refine ⟨String.ofList p.source, .constant, ?_⟩
    rw [Piece.term, Amount.ofInt?_natCast_eq_none h]
  | dice count sides =>
    obtain ⟨fault, hfault⟩ := BoundsPolicy.dice_of_not_inRange h
    refine ⟨String.ofList p.body, fault, ?_⟩
    rw [Piece.term, hfault]

/-! ## The whole text -/

namespace Formula

variable {policy : BoundsPolicy} {text : String} {parts : List (Piece × Body)}

/-- A text is read piece by piece, from its spelling. -/
theorem readWith_eq (h : Spelling (normalize text) parts) : readWith policy text =
    (parts.mapM fun part : Piece × Body => part.1.term policy part.2).map Formula.mk := by
  rw [readWith, if_pos (accepts_iff.mpr ⟨parts, h⟩), scan_of_spelling h]
  change (parts.mapM (fun part : Piece × Body => part.1.term policy part.2) >>= fun terms =>
    pure (Formula.mk terms)) = _
  cases parts.mapM fun part : Piece × Body => part.1.term policy part.2 <;> rfl

/-- A text that has no spelling is malformed. -/
theorem readWith_of_notMem (h : normalize text ∉ Grammar.formula) :
    readWith policy text = .error (.malformed (String.ofList (Text.trim text.toList))) := by
  rw [Grammar.mem_formula_iff, ← accepts_iff] at h
  rw [readWith, if_neg h]

/-- With every number in range the text is the formula of the terms it spells. -/
theorem readWith_of_inRange (h : Spelling (normalize text) parts)
    (hrange : ∀ part ∈ parts, part.2.InRange policy) :
    ∃ f, readWith policy text = .ok f ∧ f.SpelledBy policy parts := by
  have hterms : ∀ part ∈ parts, ∃ t, part.1.term policy part.2 = .ok t ∧
      part.1.Means policy part.2 t :=
    fun part hpart => part.1.term_of_inRange (hrange part hpart)
  obtain ⟨terms, hok, hall⟩ := Sequence.exists_mapM_ok hterms
  refine ⟨⟨terms⟩, ?_, hall⟩
  rw [readWith_eq h, hok]
  rfl

/-- With some number out of range the text is refused for that. -/
theorem readWith_of_not_inRange (h : Spelling (normalize text) parts)
    (hrange : ∃ part ∈ parts, ¬ part.2.InRange policy) :
    ∃ source fault, readWith policy text = .error (.outOfRange source fault) := by
  obtain ⟨part, hpart, hout⟩ := hrange
  obtain ⟨source, fault, hterm⟩ := part.1.term_of_not_inRange hout
  have hfails : ∃ part ∈ parts, ∃ e, part.1.term policy part.2 = .error e :=
    ⟨part, hpart, _, hterm⟩
  -- the first piece that fails decides, and only a piece out of range fails
  obtain ⟨-, first, -, e, -, -, he, hfail⟩ := Sequence.exists_mapM_error hfails
  have hfirst : ¬ first.2.InRange policy := by
    intro hin
    obtain ⟨t, ht, -⟩ := first.1.term_of_inRange hin
    rw [ht] at he
    cases he
  obtain ⟨source, fault, hterm⟩ := first.1.term_of_not_inRange hfirst
  obtain rfl := Except.error.inj (hterm.symm.trans he)
  refine ⟨source, fault, ?_⟩
  rw [readWith_eq h, hfail]
  rfl

/-- A text that is read has a spelling, with every number in range, and is the formula of it. -/
theorem spelling_of_readWith_ok {f : Formula} (h : readWith policy text = .ok f) :
    ∃ parts, Spelling (normalize text) parts ∧ (∀ part ∈ parts, part.2.InRange policy) ∧
      f.SpelledBy policy parts := by
  by_cases hmem : normalize text ∈ Grammar.formula
  · obtain ⟨parts, hparts⟩ := Grammar.mem_formula_iff.mp hmem
    by_cases hrange : ∀ part ∈ parts, part.2.InRange policy
    · obtain ⟨_, hok, hall⟩ := readWith_of_inRange hparts hrange
      obtain rfl := Except.ok.inj (hok.symm.trans h)
      exact ⟨parts, hparts, hrange, hall⟩
    · push Not at hrange
      obtain ⟨source, fault, hout⟩ := readWith_of_not_inRange hparts hrange
      rw [hout] at h
      cases h
  · rw [readWith_of_notMem hmem] at h
    cases h

/-- **Reading follows the grammar.** A text without blanks and in lower case that is not in the
language of formulas is malformed. One that is has a single spelling, which is what the scan finds,
no character skipped; it is out of range exactly when a number of the spelling is, and otherwise it
is the formula of the terms spelled. -/
theorem readWith_grammar (policy : BoundsPolicy) (text : String) :
    (readWith policy text = .error (.malformed (String.ofList (Text.trim text.toList))) ↔
      normalize text ∉ Grammar.formula) ∧
    (normalize text ∈ Grammar.formula ↔ ∃! parts, Spelling (normalize text) parts) ∧
    ∀ parts, Spelling (normalize text) parts →
      scan (normalize text) = parts ∧
      ((∃ source fault, readWith policy text = .error (.outOfRange source fault)) ↔
        ∃ part ∈ parts, ¬ part.2.InRange policy) ∧
      ((∀ part ∈ parts, part.2.InRange policy) →
        ∃ f, readWith policy text = .ok f ∧ f.SpelledBy policy parts) := by
  refine ⟨⟨?_, readWith_of_notMem⟩, ⟨?_, ?_⟩, ?_⟩
  · rintro hmalformed hmem
    obtain ⟨parts, h⟩ := Grammar.mem_formula_iff.mp hmem
    by_cases hrange : ∀ part ∈ parts, part.2.InRange policy
    · obtain ⟨f, hok, -⟩ := readWith_of_inRange h hrange
      rw [hok] at hmalformed
      cases hmalformed
    · push Not at hrange
      obtain ⟨source, fault, hout⟩ := readWith_of_not_inRange h hrange
      rw [hout] at hmalformed
      cases hmalformed
  · intro hmem
    obtain ⟨parts, h⟩ := Grammar.mem_formula_iff.mp hmem
    exact ⟨parts, h, fun others => h.unique⟩
  · rintro ⟨parts, h, -⟩
    exact Grammar.mem_formula_iff.mpr ⟨parts, h⟩
  · intro parts h
    refine ⟨scan_of_spelling h, ⟨?_, readWith_of_not_inRange h⟩, readWith_of_inRange h⟩
    rintro ⟨source, fault, hout⟩
    by_contra hrange
    push Not at hrange
    obtain ⟨f, hok, -⟩ := readWith_of_inRange h hrange
    rw [hok] at hout
    cases hout

/-- Blanks, capitals and leading zeros do not count, and dice out of range are clamped. -/
theorem readWith_grammar_clamped :
    ∃ f, readWith .clamp "\u2003 2 D 06 - d4294967296\t+ 0 07" = .ok f ∧ f.SpelledBy .clamp
      [(⟨none, ['2', 'd', '0', '6']⟩, .dice (some 2) 6),
        (⟨some .minus, 'd' :: Decimal.digits 4294967296⟩, .dice none 4294967296),
        (⟨some .plus, ['0', '0', '7']⟩, .constant 7)] := by
  have haccepts : accepts (normalize "\u2003 2 D 06 - d4294967296\t+ 0 07") = true := by decide
  obtain ⟨parts, hparts⟩ := accepts_iff.mp haccepts
  obtain ⟨hscan, -, hok⟩ :=
    (readWith_grammar .clamp "\u2003 2 D 06 - d4294967296\t+ 0 07").2.2 parts hparts
  obtain rfl : parts = [(⟨none, ['2', 'd', '0', '6']⟩, .dice (some 2) 6),
      (⟨some .minus, 'd' :: Decimal.digits 4294967296⟩, .dice none 4294967296),
      (⟨some .plus, ['0', '0', '7']⟩, .constant 7)] := hscan.symm.trans (by decide)
  exact hok (by simp [Body.InRange])

end Formula

end Tabletop
