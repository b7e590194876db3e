import Mathlib.Computability.Language
import Tabletop.Formula.Reading

/-!
# The grammar of formulas

What the text of a formula is, said apart from the reader:

* `Grammar.formula` — the language `body ((+|-) body)*` over characters, where a body is
  `[0-9]*d[0-9]+` or `[0-9]+`.
* `Body.Spelled` — the characters a body is written with.
* `Spelling` — a text cut at its signs, each stretch with the body it writes; joining the
  stretches gives the whole text back.

A text is in the language exactly when it has a spelling (`Grammar.mem_formula_iff`).
-/

namespace Tabletop

open scoped Computability

/-- One or more ASCII digits. -/
def Decimal.IsRun (cs : List Char) : Prop :=
  cs ≠ [] ∧ cs.all Char.isDigit

/-! ## The language -/

namespace Grammar

/-- `[0-9]` -/
def digit : Language Char := {cs | ∃ c, c.isDigit = true ∧ cs = [c]}

/-- `[0-9]+` -/
def number : Language Char := digit * digit∗

/-- `[0-9]*d[0-9]+ | [0-9]+` -/
def body : Language Char := digit∗ * {['d']} * number + number

/-- `+ | -` -/
def sign : Language Char := {['+']} + {['-']}

/-- `body ((+|-) body)*` -/
def formula : Language Char := body * (sign * body)∗

end Grammar

/-! ## Spellings -/

/-- The characters a body is written with. -/
inductive Body.Spelled : Body → List Char → Prop where
  /-- a run of digits -/
  | constant {ds : List Char} : Decimal.IsRun ds → Spelled (.constant (Decimal.value ds)) ds
  /-- dice without a count -/
  | single {ds : List Char} : Decimal.IsRun ds →
      Spelled (.dice none (Decimal.value ds)) ('d' :: ds)
  /-- dice with a count -/
  | counted {cs ds : List Char} : Decimal.IsRun cs → Decimal.IsRun ds →
      Spelled (.dice (some (Decimal.value cs)) (Decimal.value ds)) (cs ++ 'd' :: ds)

/-- A text cut at its signs, with the body that each piece writes. -/
structure Spelling (cs : List Char) (parts : List (Piece × Body)) : Prop where
  /-- every piece but the first follows a sign -/
  leads : ∃ first rest, parts = first :: rest ∧ first.1.lead = none ∧
    ∀ part ∈ rest, part.1.lead ≠ none
  /-- each piece writes its body -/
  spelled : ∀ part ∈ parts, part.2.Spelled part.1.body
  /-- the pieces with their signs are the whole text -/
  joined : parts.flatMap (·.1.source) = cs

/-! ## The language and the spellings -/

namespace Grammar

theorem mem_star_digit_iff {cs : List Char} : cs ∈ digit∗ ↔ cs.all Char.isDigit := by
  constructor
  · rintro ⟨parts, rfl, hparts⟩
    rw [List.all_flatten, List.all_eq_true]
    intro part hpart
    obtain ⟨c, hc, rfl⟩ := hparts part hpart
    simp [hc]
  · intro h
    refine ⟨cs.map ([·]), by simp [← List.flatMap_def], ?_⟩
    intro part hpart
    obtain ⟨c, hc, rfl⟩ := List.mem_map.mp hpart
    exact ⟨c, List.all_eq_true.mp h c hc, rfl⟩

theorem mem_number_iff {cs : List Char} : cs ∈ number ↔ Decimal.IsRun cs := by
  rw [number, Language.mem_mul]
  constructor
  · rintro ⟨_, ⟨c, hc, rfl⟩, ds, hds, rfl⟩
    exact ⟨List.cons_ne_nil c ds, by simp [hc, mem_star_digit_iff.mp hds]⟩
  · rintro ⟨hne, hall⟩
    obtain ⟨c, ds, rfl⟩ := List.exists_cons_of_ne_nil hne
    rw [List.all_cons, Bool.and_eq_true] at hall
    exact ⟨[c], ⟨c, hall.1, rfl⟩, ds, mem_star_digit_iff.mpr hall.2, rfl⟩

theorem mem_body_iff {cs : List Char} : cs ∈ body ↔ ∃ b : Body, b.Spelled cs := by
  rw [body, Language.mem_add, Language.mem_mul]
  constructor
  · rintro (⟨head, hhead, ds, hds, rfl⟩ | h)
    · obtain ⟨cs, hcs, _, rfl, rfl⟩ := Language.mem_mul.mp hhead
      rw [List.append_assoc]
      -- the digits in front of the `d` may be missing
      rcases eq_or_ne cs [] with rfl | hne
      · exact ⟨_, .single (mem_number_iff.mp hds)⟩
      · exact ⟨_, .counted ⟨hne, mem_star_digit_iff.mp hcs⟩ (mem_number_iff.mp hds)⟩
    · exact ⟨_, .constant (mem_number_iff.mp h)⟩
  · rintro ⟨b, hb⟩
    cases hb with
    | constant h => exact .inr (mem_number_iff.mpr h)
    | single h =>
      exact .inl ⟨['d'], ⟨[], Language.nil_mem_kstar _, ['d'], rfl, rfl⟩, _,
        mem_number_iff.mpr h, rfl⟩
    | @counted cs ds hcs hds =>
      exact .inl ⟨cs ++ ['d'], ⟨cs, mem_star_digit_iff.mpr hcs.2, ['d'], rfl, rfl⟩, ds,
        mem_number_iff.mpr hds, by simp⟩

theorem mem_sign_iff {cs : List Char} : cs ∈ sign ↔ ∃ s : Sign, cs = [s.symbol] := by
  rw [sign, Language.mem_add]
  constructor
  · rintro (rfl | rfl)
    · exact ⟨.plus, rfl⟩
    · exact ⟨.minus, rfl⟩
  · rintro ⟨s, rfl⟩
    cases s with
    | plus => exact .inl rfl
    | minus => exact .inr rfl

/-- A sign and a body are a piece that follows a sign. -/
theorem mem_sign_mul_body_iff {cs : List Char} : cs ∈ sign * body ↔
    ∃ part : Piece × Body, part.1.lead ≠ none ∧ part.2.Spelled part.1.body ∧
      part.1.source = cs := by
  rw [Language.mem_mul]
  constructor
  · rintro ⟨_, hs, ds, hds, rfl⟩
    obtain ⟨s, rfl⟩ := mem_sign_iff.mp hs
    obtain ⟨b, hb⟩ := mem_body_iff.mp hds
    exact ⟨(⟨some s, ds⟩, b), Option.some_ne_none s, hb, rfl⟩
  · rintro ⟨⟨⟨lead, ds⟩, b⟩, hlead, hb, rfl⟩
    obtain ⟨s, rfl⟩ := Option.ne_none_iff_exists'.mp hlead
    exact ⟨[s.symbol], mem_sign_iff.mpr ⟨s, rfl⟩, ds, mem_body_iff.mpr ⟨b, hb⟩, rfl⟩

theorem mem_star_sign_mul_body_iff {cs : List Char} : cs ∈ (sign * body)∗ ↔
    ∃ parts : List (Piece × Body), (∀ part ∈ parts, part.1.lead ≠ none) ∧
      (∀ part ∈ parts, part.2.Spelled part.1.body) ∧ parts.flatMap (·.1.source) = cs := by
  rw [Language.mem_kstar]
  constructor
  · rintro ⟨stretches, rfl, hstretches⟩
    induction stretches with
    | nil => exact ⟨[], by simp, by simp, rfl⟩
    | cons stretch rest ih =>
      obtain ⟨part, hlead, hspelled, rfl⟩ :=
        mem_sign_mul_body_iff.mp (hstretches stretch List.mem_cons_self)
      obtain ⟨parts, hleads, hall, hjoined⟩ :=
        ih fun y hy => hstretches y (List.mem_cons_of_mem _ hy)
      refine ⟨part :: parts, ?_, ?_, ?_⟩
      · exact List.forall_mem_cons.mpr ⟨hlead, hleads⟩
      · exact List.forall_mem_cons.mpr ⟨hspelled, hall⟩
      · rw [List.flatMap_cons, hjoined, List.flatten_cons]
  · rintro ⟨parts, hleads, hall, rfl⟩
    refine ⟨parts.map (·.1.source), List.flatMap_def, ?_⟩
    intro stretch hstretch
    obtain ⟨part, hpart, rfl⟩ := List.mem_map.mp hstretch
    exact mem_sign_mul_body_iff.mpr ⟨part, hleads part hpart, hall part hpart, rfl⟩

/-- **Grammar and spellings agree**: the texts of the language are those that have a spelling. -/
theorem mem_formula_iff {cs : List Char} : cs ∈ formula ↔ ∃ parts, Spelling cs parts := by
  rw [formula, Language.mem_mul]
  constructor
  · rintro ⟨ds, hds, tail, htail, rfl⟩
    obtain ⟨b, hb⟩ := mem_body_iff.mp hds
    obtain ⟨parts, hleads, hall, rfl⟩ := mem_star_sign_mul_body_iff.mp htail
    exact ⟨(⟨none, ds⟩, b) :: parts, ⟨_, _, rfl, rfl, hleads⟩,
      List.forall_mem_cons.mpr ⟨hb, hall⟩, rfl⟩
  · rintro ⟨parts, ⟨first, rest, rfl, hfirst, hleads⟩, hall, rfl⟩
    obtain ⟨hspelled, hall⟩ := List.forall_mem_cons.mp hall
    refine ⟨first.1.body, mem_body_iff.mpr ⟨_, hspelled⟩, rest.flatMap (·.1.source),
      mem_star_sign_mul_body_iff.mpr ⟨rest, hleads, hall, rfl⟩, ?_⟩
    rw [List.flatMap_cons, Piece.source, hfirst]

end Grammar

end Tabletop
