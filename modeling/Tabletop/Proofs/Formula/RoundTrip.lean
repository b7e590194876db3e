import Tabletop.Proofs.Formula.Reading

/-!
# Writing and reading a formula

The canonical text of a formula is read back as that formula exactly when the formula is
`WellFormed`, and every formula that a text is read as is well-formed.

* `TermKind.body` — what the written kind of a term is read as.
* `Formula.parts` — the spelling of a formula's text.
* `Formula.read_text` — a well-formed formula is read back.
* `Formula.wellFormed_of_readWith` — what is read is well-formed.
* `Formula.read_text_iff` — both together.
-/

namespace Tabletop

/-- A kind of term that can be written: dice few enough and of a supported size, or a constant
that is not negative. -/
def TermKind.InRange : TermKind → Prop
  | .dice count sides => (1 ≤ count.toNat ∧ count.toNat ≤ 100) ∧
    (2 ≤ sides.toNat ∧ sides.toNat ≤ 1000)
  | .constant value => 0 ≤ value.toInt

instance TermKind.decidableInRange (k : TermKind) : Decidable k.InRange :=
  match k with
  | .dice count sides => inferInstanceAs (Decidable
      ((1 ≤ count.toNat ∧ count.toNat ≤ 100) ∧ (2 ≤ sides.toNat ∧ sides.toNat ≤ 1000)))
  | .constant value => inferInstanceAs (Decidable (0 ≤ value.toInt))

/-- A formula as it is written: it starts with an added term, and every term is written in the
formula itself and in range. -/
structure Formula.WellFormed (f : Formula) : Prop where
  starts : ∃ first rest, f.terms = first :: rest ∧ first.sign = .plus
  base : ∀ t ∈ f.terms, t.origin = .base
  inRange : ∀ t ∈ f.terms, t.kind.InRange

/-! ## The text of a formula -/

namespace TermKind

/-- What the written kind of a term is read as. -/
def body : TermKind → Body
  | .dice count sides => .dice (some count.toNat) sides.toNat
  | .constant value => .constant value.toInt.toNat

theorem InRange.spelled {k : TermKind} (h : k.InRange) : k.body.Spelled k.chars := by
  cases k with
  | dice count sides =>
    have hspelled := Body.Spelled.counted (Decimal.isRun_digits count.toNat)
      (Decimal.isRun_digits sides.toNat)
    rwa [Decimal.value_digits, Decimal.value_digits] at hspelled
  | constant value =>
    have hnonneg : 0 ≤ value.toInt := h
    have hchars : (constant value).chars = Decimal.digits value.toInt.toNat := by
      rw [chars, Decimal.integer, if_neg (by omega)]
      congr 1
      omega
    have hspelled := Body.Spelled.constant (Decimal.isRun_digits value.toInt.toNat)
    rw [Decimal.value_digits] at hspelled
    rwa [hchars]

end TermKind

theorem TermKind.InRange.body_inRange {k : TermKind} (h : k.InRange) : k.body.InRange .reject := by
  cases k with
  | dice count sides => exact fun _ => h
  | constant value =>
    have hmax := (Amount.toInt_bounds value).2
    rw [Amount.greatest] at hmax
    change value.toInt.toNat ≤ 2 ^ 63 - 1
    omega

/-- The written kind of a term means that term, behind its sign. -/
theorem Piece.means_body {p : Piece} {t : Term} (hsign : t.sign = p.lead.getD .plus)
    (hbase : t.origin = .base) (hrange : t.kind.InRange) : p.Means .reject t.kind.body t := by
  refine ⟨hsign, hbase, ?_⟩
  cases hkind : t.kind with
  | dice count sides => exact ⟨count, sides, rfl, rfl, rfl⟩
  | constant value =>
    rw [hkind] at hrange
    exact ⟨value, rfl, (Int.toNat_of_nonneg hrange).symm⟩

namespace Formula

/-- The spelling of a formula's text: only the first term leaves out its sign. -/
def parts (f : Formula) : List (Piece × Body) :=
  match f.terms with
  | [] => []
  | t :: rest => (⟨none, t.kind.chars⟩, t.kind.body) ::
    rest.map fun t => (⟨some t.sign, t.kind.chars⟩, t.kind.body)

theorem WellFormed.spelling {f : Formula} (h : f.WellFormed) : Spelling f.chars f.parts := by
  obtain ⟨terms⟩ := f
  obtain ⟨first, rest, rfl, hplus⟩ := h.starts
  obtain ⟨hfirst, hrest⟩ := List.forall_mem_cons.mp h.inRange
  refine ⟨⟨_, _, rfl, rfl, ?_⟩, ?_, ?_⟩
  · exact List.forall_mem_map.mpr fun t _ => Option.some_ne_none t.sign
  · refine List.forall_mem_cons.mpr ⟨hfirst.spelled, ?_⟩
    exact List.forall_mem_map.mpr fun t ht => (hrest t ht).spelled
  · simp [parts, chars, tailChars, List.flatMap_map, Piece.source, hplus]

theorem WellFormed.spelledBy {f : Formula} (h : f.WellFormed) : f.SpelledBy .reject f.parts := by
  obtain ⟨terms⟩ := f
  obtain ⟨first, rest, rfl, hplus⟩ := h.starts
  obtain ⟨hfirst, hrest⟩ := List.forall_mem_cons.mp h.inRange
  obtain ⟨hbase, hbases⟩ := List.forall_mem_cons.mp h.base
  refine .cons (Piece.means_body hplus hbase hfirst) ?_
  rw [List.forall₂_map_left_iff, List.forall₂_same]
  intro t ht
  exact Piece.means_body rfl (hbases t ht) (hrest t ht)

end Formula

/-! ## Texts in normal form -/

/-- A character that normalizing leaves as it is. -/
def Text.Plain (c : Char) : Prop :=
  isBlank c = false ∧ lower c = [c]

theorem Text.plain_of_isDigit {c : Char} (h : c.isDigit = true) : Plain c := by
  have hc : 48 ≤ c.toNat ∧ c.toNat ≤ 57 := by
    simpa [Char.isDigit, UInt32.le_iff_toNat_le] using h
  refine ⟨isBlank_of_isDigit h, ?_⟩
  have hlower : c.toLower = c := by
    refine dif_neg ?_
    rintro ⟨hupper, -⟩
    have : 65 ≤ c.toNat := UInt32.le_iff_toNat_le.mp hupper
    omega
  rw [lower_of_lt (by omega), hlower]

theorem Text.plain_symbol (s : Sign) : Plain s.symbol := by
  cases s <;> exact ⟨by decide, by decide⟩

theorem Text.lowerCase_squeeze {cs : List Char} (h : ∀ c ∈ cs, Plain c) :
    lowerCase (squeeze cs) = cs := by
  induction cs with
  | nil => rfl
  | cons c cs ih =>
    obtain ⟨⟨hblank, hlower⟩, hcs⟩ := List.forall_mem_cons.mp h
    rw [squeeze, List.filter_cons_of_pos (by simp [hblank]), lowerCase_cons, hlower]
    exact congrArg (c :: ·) (ih hcs)

theorem Piece.plain_of_mem_source {p : Piece} {b : Body} (h : b.Spelled p.body) {c : Char}
    (hc : c ∈ p.source) : Text.Plain c := by
  have hbody : ∀ c ∈ p.body, Text.Plain c := by
    intro c hc
    rcases h.mem hc with hd | rfl
    · exact Text.plain_of_isDigit hd
    · exact ⟨by decide, by decide⟩
  obtain ⟨lead, body⟩ := p
  cases lead with
  | none => exact hbody c hc
  | some s =>
    rcases List.mem_cons.mp hc with rfl | hc
    · exact Text.plain_symbol s
    · exact hbody c hc

/-- A text with a spelling is in normal form already. -/
theorem Spelling.normalize {cs : List Char} {parts : List (Piece × Body)}
    (h : Spelling cs parts) : Formula.normalize (String.ofList cs) = cs := by
  rw [Formula.normalize, String.toList_ofList]
  refine Text.lowerCase_squeeze ?_
  intro c hc
  rw [← h.joined] at hc
  obtain ⟨part, hpart, hc⟩ := List.mem_flatMap.mp hc
  exact Piece.plain_of_mem_source (h.spelled part hpart) hc

/-! ## The round trip -/

/-- The term of a piece in range can be written. -/
theorem Piece.Means.kind_inRange {policy : BoundsPolicy} {p : Piece} {b : Body} {t : Term}
    (h : p.Means policy b t) (hb : b.InRange policy) : t.kind.InRange := by
  cases b with
  | constant value =>
    obtain ⟨v, hv, hvalue⟩ := h.kind
    rw [hv]
    change 0 ≤ v.toInt
    omega
  | dice count sides =>
    obtain ⟨n, m, hk, hn, hm⟩ := h.kind
    rw [hk]
    change (1 ≤ n.toNat ∧ n.toNat ≤ 100) ∧ 2 ≤ m.toNat ∧ m.toNat ≤ 1000
    rw [hn, hm]
    cases policy with
    | reject => exact hb rfl
    | clamp =>
      dsimp only [BoundsPolicy.hold]
      omega

namespace Formula

/-- A well-formed formula is read back from its text. -/
theorem read_text {f : Formula} (h : f.WellFormed) : read f.text = .ok f := by
  have hspelling : Spelling (normalize f.text) f.parts := by
    rw [text, h.spelling.normalize]
    exact h.spelling
  have hrange : ∀ part ∈ f.parts, part.2.InRange .reject := by
    obtain ⟨terms⟩ := f
    obtain ⟨first, rest, rfl, -⟩ := h.starts
    obtain ⟨hfirst, hrest⟩ := List.forall_mem_cons.mp h.inRange
    refine List.forall_mem_cons.mpr ⟨hfirst.body_inRange, ?_⟩
    exact List.forall_mem_map.mpr fun t ht => (hrest t ht).body_inRange
  obtain ⟨g, hok, hg⟩ := readWith_of_inRange hspelling hrange
  rw [read, hok, hg.unique h.spelledBy]

/-- What is read is well-formed, under either policy. -/
theorem wellFormed_of_readWith {policy : BoundsPolicy} {text : String} {f : Formula}
    (h : readWith policy text = .ok f) : f.WellFormed := by
  obtain ⟨parts, hparts, hrange, hall⟩ := spelling_of_readWith_ok h
  have hmeans : ∀ t ∈ f.terms, ∃ part ∈ parts, part.1.Means policy part.2 t :=
    fun t ht => Sequence.exists_of_mem_right hall ht
  refine ⟨?_, ?_, ?_⟩
  · obtain ⟨first, rest, rfl, hfirst, -⟩ := hparts.leads
    obtain ⟨t, ts, ht, -, hterms⟩ := List.forall₂_cons_left_iff.mp hall
    exact ⟨t, ts, hterms, by rw [ht.sign, hfirst]; rfl⟩
  · intro t ht
    obtain ⟨part, -, hpart⟩ := hmeans t ht
    exact hpart.origin
  · intro t ht
    obtain ⟨part, hmem, hpart⟩ := hmeans t ht
    exact hpart.kind_inRange (hrange part hmem)

/-- What is read has a term. -/
theorem terms_ne_nil_of_readWith {policy : BoundsPolicy} {text : String} {f : Formula}
    (h : readWith policy text = .ok f) : f.terms ≠ [] := by
  obtain ⟨first, rest, hterms, -⟩ := (wellFormed_of_readWith h).starts
  rw [hterms]
  exact List.cons_ne_nil first rest

/-- **Writing and reading are inverse on the well-formed formulas, and on no others.** Every
formula that is read, under either policy, is one of them. -/
theorem read_text_iff :
    (∀ f : Formula, read f.text = .ok f ↔ f.WellFormed) ∧
    ∀ (policy : BoundsPolicy) (text : String) (f : Formula), readWith policy text = .ok f →
      f.WellFormed ∧ read f.text = .ok f := by
  refine ⟨fun f => ⟨wellFormed_of_readWith, read_text⟩, ?_⟩
  intro policy text f h
  have hf : f.WellFormed := wellFormed_of_readWith h
  exact ⟨hf, read_text hf⟩

/-- Clamped dice are written as they are rolled, and read back unclamped. -/
theorem read_text_clamped :
    readWith .clamp "0d5000-7" = .ok ⟨[.dice .plus 1 1000, ⟨.minus, .constant 7, .base⟩]⟩ ∧
      WellFormed ⟨[.dice .plus 1 1000, ⟨.minus, .constant 7, .base⟩]⟩ ∧
      read (text ⟨[.dice .plus 1 1000, ⟨.minus, .constant 7, .base⟩]⟩) =
        .ok ⟨[.dice .plus 1 1000, ⟨.minus, .constant 7, .base⟩]⟩ := by
  have hread : readWith .clamp "0d5000-7" =
      .ok ⟨[.dice .plus 1 1000, ⟨.minus, .constant 7, .base⟩]⟩ := rfl
  exact ⟨hread, read_text_iff.2 .clamp "0d5000-7" _ hread⟩

end Formula

end Tabletop
