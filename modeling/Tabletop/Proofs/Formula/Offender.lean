import Tabletop.Proofs.Formula.Reading

/-!
# The term that a text is refused for

A text of a formula's form is refused when one of its numbers is out of range. The error tells of
the leftmost piece with such a number, and of the number itself.

* `Body.Blames` — which number of a body is out of range, the count of dice before their sides.
* `Piece.named` — how an error names a piece: a constant with its sign, dice without.
* `Formula.Offender` — the leftmost piece out of range; a text with one is refused for it
  (`Formula.readWith_of_offender`).
* `Formula.readWith_outOfRange_iff` — what an error tells, and when that is the text without its
  sign.
-/

namespace Tabletop

/-! ## One piece -/

/-- A number of a body is out of range under a policy, and the numbers in front of it are not. -/
inductive Body.Blames (policy : BoundsPolicy) : Body → RangeFault → Prop where
  /-- a constant that is no amount -/
  | constant {value : Nat} : ¬ value ≤ 2 ^ 63 - 1 → Blames policy (.constant value) .constant
  /-- too few or too many dice, whatever their sides -/
  | diceCount {count : Option Nat} {sides : Nat} : policy = .reject →
      ¬ (1 ≤ count.getD 1 ∧ count.getD 1 ≤ 100) → Blames policy (.dice count sides) .diceCount
  /-- dice of an unsupported size, as many as they may be -/
  | dieSides {count : Option Nat} {sides : Nat} : policy = .reject →
      1 ≤ count.getD 1 ∧ count.getD 1 ≤ 100 → ¬ (2 ≤ sides ∧ sides ≤ 1000) →
      Blames policy (.dice count sides) .dieSides

/-- The characters by which an error names a piece. -/
def Piece.named (p : Piece) : RangeFault → List Char
  | .constant => p.source
  | .diceCount | .dieSides => p.body

/-- Whatever is out of range has a number to blame. -/
theorem Body.exists_blames {policy : BoundsPolicy} {b : Body} (h : ¬ b.InRange policy) :
    ∃ fault, b.Blames policy fault := by
  cases b with
  | constant value => exact ⟨.constant, .constant h⟩
  | dice count sides =>
    obtain ⟨hpolicy, hnumbers⟩ := Classical.not_imp.mp h
    by_cases hcount : 1 ≤ count.getD 1 ∧ count.getD 1 ≤ 100
    · exact ⟨.dieSides, .dieSides hpolicy hcount fun hsides => hnumbers ⟨hcount, hsides⟩⟩
    · exact ⟨.diceCount, .diceCount hpolicy hcount⟩

/-- A number outside a range that words reach beyond is outside as a word. -/
theorem ofNatClamp_outside (low high : UInt32) (hhigh : high.toNat < 2 ^ 32 - 1) {n : Nat}
    (h : ¬ (low.toNat ≤ n ∧ n ≤ high.toNat)) :
    UInt32.ofNatClamp n < low ∨ high < UInt32.ofNatClamp n :=
  not_not.mp ((ofNatClamp_inside_iff low high hhigh n).not.mpr h)

/-- A piece is refused for the number to blame. -/
theorem Piece.term_of_blames {policy : BoundsPolicy} (p : Piece) {b : Body} {fault : RangeFault}
    (h : b.Blames policy fault) :
    p.term policy b = .error (.outOfRange (String.ofList (p.named fault)) fault) := by
  cases h with
  | constant hvalue => rw [Piece.term, Amount.ofInt?_natCast_eq_none hvalue, named]
  | diceCount hpolicy hcount =>
    rw [Piece.term, hpolicy, BoundsPolicy.dice,
      if_pos (ofNatClamp_outside minDice maxDice (by decide) hcount), named]
  | dieSides hpolicy hcount hsides =>
    rw [Piece.term, hpolicy, BoundsPolicy.dice,
      if_neg ((ofNatClamp_inside_iff minDice maxDice (by decide) _).mpr hcount),
      if_pos (ofNatClamp_outside minSides maxSides (by decide) hsides), named]

/-- A piece that is not refused is in range. -/
theorem Piece.inRange_of_term {policy : BoundsPolicy} (p : Piece) {b : Body}
    (h : ∀ e, p.term policy b ≠ .error e) : b.InRange policy := by
  by_contra hrange
  obtain ⟨source, fault, hterm⟩ := p.term_of_not_inRange hrange
  exact h _ hterm

/-- A piece is named without its sign unless it is a constant that follows one. -/
theorem Piece.named_eq_body_iff (p : Piece) (fault : RangeFault) :
    p.named fault = p.body ↔ (fault = .constant → p.lead = none) := by
  obtain ⟨lead, body⟩ := p
  cases fault with
  | diceCount => simp [named]
  | dieSides => simp [named]
  | constant =>
    cases lead with
    | none => simp [named, source]
    | some sign => simp [named, source]

/-! ## The whole text -/

namespace Formula

/-- The leftmost piece of a text that is out of range, and the fault with it. -/
def Offender (policy : BoundsPolicy) (cs : List Char) (p : Piece) (fault : RangeFault) : Prop :=
  ∃ before b after, Spelling cs (before ++ (p, b) :: after) ∧
    (∀ earlier ∈ before, earlier.2.InRange policy) ∧ b.Blames policy fault

variable {policy : BoundsPolicy} {text : String}

/-- A text is refused for its leftmost piece out of range. -/
theorem readWith_of_offender {p : Piece} {fault : RangeFault}
    (h : Offender policy (normalize text) p fault) :
    readWith policy text = .error (.outOfRange (String.ofList (p.named fault)) fault) := by
  obtain ⟨before, b, after, hspelling, hbefore, hblames⟩ := h
  have hfail : (before ++ (p, b) :: after).mapM (fun part => part.1.term policy part.2) =
      .error (.outOfRange (String.ofList (p.named fault)) fault) := by
    refine Sequence.mapM_append_error (fun earlier hearlier => ?_) (p.term_of_blames hblames)
    obtain ⟨t, ht, -⟩ := earlier.1.term_of_inRange (hbefore earlier hearlier)
    exact ⟨t, ht⟩
  rw [readWith_eq hspelling, hfail]
  rfl

/-- A text that is refused for a term has a leftmost piece out of range. -/
theorem exists_offender {term : String} {fault : RangeFault}
    (h : readWith policy text = .error (.outOfRange term fault)) :
    ∃ p fault, Offender policy (normalize text) p fault := by
  have hmem : normalize text ∈ Grammar.formula := by
    by_contra hmem
    rw [readWith_of_notMem hmem] at h
    cases h
  obtain ⟨parts, hparts⟩ := Grammar.mem_formula_iff.mp hmem
  have hfails : ∃ part ∈ parts, ∃ e, part.1.term policy part.2 = .error e := by
    by_contra hrange
    push Not at hrange
    obtain ⟨f, hok, -⟩ := readWith_of_inRange hparts fun part hpart =>
      part.1.inRange_of_term fun e => hrange part hpart e
    rw [hok] at h
    cases h
  -- the first piece that fails has only pieces in range in front of it
  obtain ⟨before, part, after, e, rfl, hbefore, he, -⟩ := Sequence.exists_mapM_error hfails
  have hpart : ¬ part.2.InRange policy := by
    intro hrange
    obtain ⟨t, ht, -⟩ := part.1.term_of_inRange hrange
    rw [ht] at he
    cases he
  obtain ⟨fault, hblames⟩ := Body.exists_blames hpart
  refine ⟨part.1, fault, before, part.2, after, hparts, fun earlier hearlier => ?_, hblames⟩
  obtain ⟨t, ht⟩ := hbefore earlier hearlier
  refine earlier.1.inRange_of_term fun e he => ?_
  rw [ht] at he
  cases he

/-- **An error names the leftmost term out of range.** The term it tells of is that of the leftmost
piece with a number out of range, the count of dice looked at before their sides, and the fault is
that number's. Dice are named by their text without the sign; a constant too large is named with the
sign it follows, and so by its text alone only where it stands first. -/
theorem readWith_outOfRange_iff (policy : BoundsPolicy) (text : String) :
    (∀ term fault, readWith policy text = .error (.outOfRange term fault) ↔
      ∃ p, Offender policy (normalize text) p fault ∧ term = String.ofList (p.named fault)) ∧
    ∀ p fault, Offender policy (normalize text) p fault →
      (readWith policy text = .error (.outOfRange (String.ofList p.body) fault) ↔
        (fault = .constant → p.lead = none)) := by
  refine ⟨fun term fault => ⟨fun h => ?_, ?_⟩, fun p fault h => ?_⟩
  · obtain ⟨p, fault', hoffender⟩ := exists_offender h
    obtain ⟨rfl, rfl⟩ : String.ofList (p.named fault') = term ∧ fault' = fault := by
      simpa using (readWith_of_offender hoffender).symm.trans h
    exact ⟨p, hoffender, rfl⟩
  · rintro ⟨p, hoffender, rfl⟩
    exact readWith_of_offender hoffender
  · rw [readWith_of_offender h, ← p.named_eq_body_iff, ← String.ofList_inj]
    simp

-- the leftmost, its count before its sides, and without the minus sign
example : readWith .reject "1d20-0d1+9d9999" = .error (.outOfRange "0d1" .diceCount) := rfl

/-- A constant in second place is named with its sign. -/
theorem readWith_names_sign :
    ∃ p, Offender .reject (normalize "1d6+9223372036854775808") p .constant ∧
      readWith .reject "1d6+9223372036854775808" =
        .error (.outOfRange "+9223372036854775808" .constant) ∧
      String.ofList p.body = "9223372036854775808" := by
  have haccepts : accepts (normalize "1d6+9223372036854775808") = true := by decide
  obtain ⟨parts, hparts⟩ := accepts_iff.mp haccepts
  obtain rfl : parts = [(⟨none, "1d6".toList⟩, .dice (some 1) 6),
      (⟨some .plus, "9223372036854775808".toList⟩, .constant 9223372036854775808)] :=
    (scan_of_spelling hparts).symm.trans (by decide)
  refine ⟨_, ⟨[_], _, [], hparts, ?_, .constant (by decide)⟩, by decide, by decide⟩
  simp [Body.InRange]

end Formula

end Tabletop
