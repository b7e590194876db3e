import Tabletop.Proofs.Formula.RoundTrip
import Tabletop.Proofs.Modifier.Kinds
import Tabletop.Proofs.Origins
import Tabletop.Proofs.Outcome

/-!
# Combining is concatenation

Texts that are read as formulas may be joined at a sign, and the joined text is read as the terms of
both. So the terms that modifiers add to a formula are those of one text, in which each expression
follows a plus sign and the net of the whole numbers comes last.

* `Formula.readWith_append` — two texts joined at a sign.
* `Formula.joinedText` — the one text of a formula and its modifiers.
* `Formula.readWith_joinedText` — it is read as the combined formula.
* `Formula.combine_concat` — the combined formula, its text, and the formula of an outcome.
-/

namespace Tabletop

/-! ## Joining spellings -/

/-- Pieces of which the first follows a sign. -/
def Spelling.behind (sign : Sign) : List (Piece × Body) → List (Piece × Body)
  | [] => []
  | (p, b) :: rest => (⟨some sign, p.body⟩, b) :: rest

/-- Two texts joined at a sign are spelled with the pieces of both. -/
theorem Spelling.append {cs ds : List Char} {parts others : List (Piece × Body)}
    (h : Spelling cs parts) (h' : Spelling ds others) (sign : Sign) :
    Spelling (cs ++ sign.symbol :: ds) (parts ++ behind sign others) := by
  obtain ⟨⟨first, rest, rfl, hfirst, hrest⟩, hspelled, hjoined⟩ := h
  obtain ⟨⟨⟨⟨lead, body⟩, b⟩, rest', rfl, rfl, hrest'⟩, hspelled', hjoined'⟩ := h'
  refine ⟨⟨first, rest ++ behind sign ((⟨none, body⟩, b) :: rest'), rfl, hfirst, ?_⟩, ?_, ?_⟩
  · intro part hpart
    rcases List.mem_append.mp hpart with hpart | hpart
    · exact hrest part hpart
    · rcases List.mem_cons.mp hpart with rfl | hpart
      · exact Option.some_ne_none sign
      · exact hrest' part hpart
  · intro part hpart
    rcases List.mem_append.mp hpart with hpart | hpart
    · exact hspelled part hpart
    · rcases List.mem_cons.mp hpart with rfl | hpart
      · exact hspelled' (⟨none, body⟩, b) List.mem_cons_self
      · exact hspelled' part (List.mem_cons_of_mem _ hpart)
  · rw [List.flatMap_append, hjoined, ← hjoined']
    rfl

namespace Formula

variable {policy : BoundsPolicy}

/-- Behind a sign the first term takes that sign, and the others stay as they are. -/
theorem SpelledBy.append {f : Formula} {t : Term} {ts : List Term}
    {parts others : List (Piece × Body)} (h : f.SpelledBy policy parts)
    (h' : SpelledBy policy ⟨t :: ts⟩ others) (sign : Sign) :
    SpelledBy policy ⟨f.terms ++ { t with sign := sign } :: ts⟩
      (parts ++ Spelling.behind sign others) := by
  obtain ⟨⟨p, b⟩, rest, ht, hts, rfl⟩ := List.forall₂_cons_right_iff.mp h'
  have hmeans : Piece.Means policy ⟨some sign, p.body⟩ b { t with sign := sign } :=
    ⟨rfl, ht.origin, ht.kind⟩
  exact List.rel_append h (.cons hmeans hts)

theorem normalize_append (text other : String) :
    normalize (text ++ other) = normalize text ++ normalize other := by
  rw [normalize, String.toList_append, Text.squeeze_append, Text.lowerCase, List.flatMap_append]
  rfl

theorem normalize_symbol (sign : Sign) :
    normalize (String.singleton sign.symbol) = [sign.symbol] := by
  rw [normalize, String.toList_singleton]
  exact Text.lowerCase_squeeze (List.forall_mem_singleton.mpr (Text.plain_symbol sign))

/-- **Reading is compositional at signs**: two texts joined at a sign are read as the terms of both,
the first term of the second behind that sign. -/
theorem readWith_append {text other : String} {f : Formula} {t : Term} {ts : List Term}
    (h : readWith policy text = .ok f) (h' : readWith policy other = .ok ⟨t :: ts⟩)
    (sign : Sign) :
    readWith policy (text ++ String.singleton sign.symbol ++ other) =
      .ok ⟨f.terms ++ { t with sign := sign } :: ts⟩ := by
  obtain ⟨parts, hparts, hrange, hspelled⟩ := spelling_of_readWith_ok h
  obtain ⟨others, hothers, hrange', hspelled'⟩ := spelling_of_readWith_ok h'
  have hspelling : Spelling (normalize (text ++ String.singleton sign.symbol ++ other))
      (parts ++ Spelling.behind sign others) := by
    rw [normalize_append, normalize_append, normalize_symbol, List.append_assoc]
    exact hparts.append hothers sign
  have hranges : ∀ part ∈ parts ++ Spelling.behind sign others, part.2.InRange policy := by
    obtain ⟨⟨p, b⟩, rest, rfl, -, -⟩ := hothers.leads
    obtain ⟨hb, hrest⟩ := List.forall_mem_cons.mp hrange'
    exact List.forall_mem_append.mpr ⟨hrange, List.forall_mem_cons.mpr ⟨hb, hrest⟩⟩
  obtain ⟨g, hok, hg⟩ := readWith_of_inRange hspelling hranges
  rw [hok, hg.unique (hspelled.append hspelled' sign)]

/-- Behind a plus sign a formula keeps its terms, since it starts with an added term. -/
theorem readWith_append_plus {text other : String} {f g : Formula}
    (h : readWith policy text = .ok f) (h' : readWith policy other = .ok g) :
    readWith policy (text ++ "+" ++ other) = .ok ⟨f.terms ++ g.terms⟩ := by
  obtain ⟨t, ts, hterms, hplus⟩ := (wellFormed_of_readWith h').starts
  obtain ⟨terms⟩ := g
  obtain rfl : terms = t :: ts := hterms
  have hsame : { t with sign := .plus } = t := by rw [← hplus]
  have happend := readWith_append h h' .plus
  rwa [hsame] at happend

/-- Digits are read as one added constant, under either policy. -/
theorem readWith_digits (policy : BoundsPolicy) {value : Amount} {n : Nat}
    (h : value.toInt = n) :
    readWith policy (Decimal.text n) = .ok ⟨[⟨.plus, .constant value, .base⟩]⟩ := by
  have hspelled : Body.Spelled (.constant n) (Decimal.digits n) := by
    have hdigits := Body.Spelled.constant (Decimal.isRun_digits n)
    rwa [Decimal.value_digits] at hdigits
  have hspelling : Spelling (Decimal.digits n) [(⟨none, Decimal.digits n⟩, .constant n)] :=
    ⟨⟨_, [], rfl, rfl, nofun⟩, List.forall_mem_singleton.mpr hspelled, List.append_nil _⟩
  have hrange : (Body.constant n).InRange policy := by
    have hmax := (Amount.toInt_bounds value).2
    rw [h, Amount.greatest] at hmax
    change n ≤ 2 ^ 63 - 1
    omega
  have hnormal :
      Spelling (normalize (Decimal.text n)) [(⟨none, Decimal.digits n⟩, .constant n)] := by
    rw [Decimal.text, hspelling.normalize]
    exact hspelling
  obtain ⟨f, hok, hf⟩ := readWith_of_inRange hnormal (List.forall_mem_singleton.mpr hrange)
  have hmeans : SpelledBy policy ⟨[⟨.plus, .constant value, .base⟩]⟩
      [(⟨none, Decimal.digits n⟩, .constant n)] :=
    .cons ⟨rfl, rfl, value, rfl, h⟩ .nil
  rw [hok, hf.unique hmeans]

end Formula

/-! ## The text of a formula and its modifiers -/

namespace Modifier

/-- The expression of a dice modifier that can be read. -/
def expression? (policy : BoundsPolicy) (m : Modifier) : Option String :=
  match m.value with
  | .integer _ => none
  | .dice expression => if m.isInert policy then none else some expression

/-- The net of the whole numbers: its sign and its magnitude, which ends at the greatest amount. -/
def netText (modifiers : List Modifier) : String :=
  match net? modifiers with
  | some net => (if net.toInt < 0 then "-" else "+") ++
      Decimal.text (min net.toInt.natAbs (2 ^ 63 - 1))
  | none => ""

theorem expression?_of_integer {policy : BoundsPolicy} {m : Modifier} {amount : Amount}
    (h : m.value = .integer amount) : m.expression? policy = none := by
  rw [expression?, h]

theorem expression?_of_readable {policy : BoundsPolicy} {m : Modifier} {expression : String}
    {f : Formula} (h : m.value = .dice expression)
    (hread : Formula.readWith policy expression = .ok f) :
    m.expression? policy = some expression := by
  rw [expression?, h]
  exact if_neg (Bool.eq_false_iff.mp (isInert_of_readable h hread))

theorem expression?_of_inert {policy : BoundsPolicy} {m : Modifier} {expression : String}
    {e : FormulaError} (h : m.value = .dice expression)
    (hread : Formula.readWith policy expression = .error e) : m.expression? policy = none := by
  rw [expression?, h]
  exact if_pos (isInert_of_inert h hread)

end Modifier

/-- The magnitude of an amount, which is at most the greatest amount. -/
theorem Amount.toInt_magnitude (a : Amount) :
    a.magnitude.toInt = (min a.toInt.natAbs (2 ^ 63 - 1) : Nat) := by
  have hleast : Int64.minValue.toInt = -9223372036854775808 := rfl
  have hgreatest : Int64.maxValue.toInt = 9223372036854775807 := rfl
  rw [magnitude, Int64.ofIntClamp]
  split
  · split
    · rw [Int64.toInt_ofIntLE]
      omega
    · omega
  · omega

namespace Formula

/-- The one text of a formula and its modifiers: the text of the formula, a plus sign and the
expression for each dice modifier that can be read, and the net of the whole numbers. -/
def joinedText (policy : BoundsPolicy) (text : String) (modifiers : List Modifier) : String :=
  (modifiers.filterMap (Modifier.expression? policy)).foldl (fun joined e => joined ++ "+" ++ e)
    text ++ Modifier.netText modifiers

/-- The signs and kinds of the terms, in order. -/
def signedKinds (f : Formula) : List (Sign × TermKind) :=
  f.terms.map fun t => (t.sign, t.kind)

/-- The formula with every term as if written in it. -/
def written (f : Formula) : Formula :=
  f.mapOrigin fun _ => .base

variable {policy : BoundsPolicy} {base : Formula}

theorem signedKinds_written (f : Formula) : f.written.signedKinds = f.signedKinds :=
  List.map_map

/-- A formula that was read is written as it is. -/
theorem map_written_of_readWith {text : String} (h : readWith policy text = .ok base) :
    base.terms.map (Term.mapOrigin fun _ => .base) = base.terms := by
  have hbase := (wellFormed_of_readWith h).base
  rw [List.map_congr_left fun t ht => Term.mapOrigin_of_eq (hbase t ht).symm, List.map_id']

/-- The terms of a modifier that can be read are those of its expression. -/
theorem map_written_addedTerms {m : Modifier} {expression : String} {f : Formula}
    (hvalue : m.value = .dice expression) (h : readWith policy expression = .ok f) (index : Nat) :
    (m.addedTerms policy index).map (Term.mapOrigin fun _ => .base) = f.terms := by
  rw [Modifier.addedTerms_of_readable hvalue h, List.map_map]
  exact map_written_of_readWith h

/-- The expressions of modifiers, each behind a plus sign, are read as the terms they add. -/
theorem readWith_expressions (modifiers : List Modifier) (index : Nat) {text : String}
    (h : readWith policy text = .ok base) :
    readWith policy ((modifiers.filterMap (Modifier.expression? policy)).foldl
        (fun joined e => joined ++ "+" ++ e) text) =
      .ok ⟨base.terms ++
        (Modifier.addedFrom policy index modifiers).map (Term.mapOrigin fun _ => .base)⟩ := by
  induction modifiers generalizing text base index with
  | nil =>
    rw [Modifier.addedFrom_nil, List.map_nil, List.append_nil]
    exact h
  | cons m rest ih =>
    rw [Modifier.addedFrom_cons, List.map_append]
    cases m.kind policy with
    | integer amount hvalue =>
      rw [List.filterMap_cons_none (Modifier.expression?_of_integer hvalue),
        Modifier.addedTerms_of_integer hvalue, List.map_nil, List.nil_append]
      exact ih (index + 1) h
    | readable expression f hvalue hread =>
      rw [List.filterMap_cons_some (Modifier.expression?_of_readable hvalue hread),
        List.foldl_cons, map_written_addedTerms hvalue hread, ← List.append_assoc]
      exact ih (index + 1) (readWith_append_plus h hread)
    | inert expression e hvalue hread =>
      rw [List.filterMap_cons_none (Modifier.expression?_of_inert hvalue hread),
        Modifier.addedTerms_of_inert hvalue hread, List.map_nil, List.nil_append]
      exact ih (index + 1) h

/-- The net at the end of a text is read as the term of the net. -/
theorem readWith_netText (modifiers : List Modifier) {text : String}
    (h : readWith policy text = .ok base) :
    readWith policy (text ++ Modifier.netText modifiers) =
      .ok ⟨base.terms ++ (Modifier.netTerms modifiers).map (Term.mapOrigin fun _ => .base)⟩ := by
  rw [Modifier.netText, Modifier.netTerms]
  cases Modifier.net? modifiers with
  | none =>
    dsimp only
    rw [String.append_empty, List.map_nil, List.append_nil]
    exact h
  | some net =>
    dsimp only
    have hsign : (if net.toInt < 0 then "-" else "+") =
        String.singleton (Term.constant net).sign.symbol := by
      have hiff : net < 0 ↔ net.toInt < 0 := Int64.lt_iff_toInt_lt
      rw [Term.constant]
      by_cases hneg : net < 0
      · rw [if_pos (hiff.mp hneg), if_pos hneg]
        rfl
      · rw [if_neg (hiff.not.mp hneg), if_neg hneg]
        rfl
    rw [hsign, ← String.append_assoc]
    exact readWith_append h (readWith_digits policy (Amount.toInt_magnitude net)) _

/-- The one text of a formula and its modifiers is read as the combined formula. -/
theorem readWith_joinedText {text : String} (h : readWith policy text = .ok base)
    (modifiers : List Modifier) :
    readWith policy (joinedText policy text modifiers) =
      .ok (base.combineWith policy modifiers).written := by
  rw [joinedText, readWith_netText modifiers (readWith_expressions modifiers 0 h), written,
    mapOrigin, combineWith, List.map_append, List.map_append, map_written_of_readWith h]

/-! ## The combined formula -/

/-- As written, the combined formula is a formula like any that is read. -/
theorem wellFormed_written {text : String} (h : readWith policy text = .ok base)
    (modifiers : List Modifier) : (base.combineWith policy modifiers).written.WellFormed :=
  wellFormed_of_readWith (readWith_joinedText h modifiers)

/-- The text of the combined formula is read back under `reject`, whatever the policy. -/
theorem read_text_combineWith {text : String} (h : readWith policy text = .ok base)
    (modifiers : List Modifier) :
    read (base.combineWith policy modifiers).text =
      .ok (base.combineWith policy modifiers).written := by
  have hread := read_text (wellFormed_written h modifiers)
  rwa [written, text_mapOrigin] at hread

theorem inRange_of_mem_combineWith {text : String} (h : readWith policy text = .ok base)
    (modifiers : List Modifier) {t : Term} (ht : t ∈ (base.combineWith policy modifiers).terms) :
    t.kind.InRange :=
  (wellFormed_written h modifiers).inRange (t.mapOrigin fun _ => .base) (List.mem_map_of_mem ht)

theorem starts_combineWith {text : String} (h : readWith policy text = .ok base)
    (modifiers : List Modifier) : ∃ first rest,
      (base.combineWith policy modifiers).terms = first :: rest ∧ first.sign = .plus := by
  obtain ⟨first, rest, hterms, hplus⟩ := (wellFormed_of_readWith h).starts
  refine ⟨first, rest ++ Modifier.addedFrom policy 0 modifiers ++ Modifier.netTerms modifiers,
    ?_, hplus⟩
  rw [combineWith, hterms, List.cons_append, List.cons_append]

/-- **Combining is textual concatenation.** The signs and kinds of the combined terms are those of
one text: the text of the formula, each expression that can be read behind a plus sign, and the net
of the whole numbers. The combined formula starts with an added term and is in range, so that its
text is read back under `reject`; the text in an outcome is read as the terms that were rolled. -/
theorem combine_concat :
    (∀ (policy : BoundsPolicy) (text : String) (modifiers : List Modifier) (base : Formula),
      readWith policy text = .ok base →
      let combined := (base.combineChecked policy modifiers).1
      (∃ joined, readWith policy (joinedText policy text modifiers) = .ok joined ∧
        joined.signedKinds = combined.signedKinds) ∧
      (∃ first rest, combined.terms = first :: rest ∧ first.sign = .plus) ∧
      (∀ t ∈ combined.terms, t.kind.InRange) ∧
      ∃ again, read combined.text = .ok again ∧ again.signedKinds = combined.signedKinds) ∧
    ∀ {σ : Type} (source : DieSource σ) (config : Config) (request : Request) (s : σ)
      (outcome : Outcome), (resolve source config request s).1 = .ok outcome →
      ∃ again, read outcome.formula = .ok again ∧
        again.signedKinds = outcome.rolledTerms.map fun t => (t.term.sign, t.term.kind) := by
  refine ⟨?_, ?_⟩
  · intro policy text modifiers base h combined
    refine ⟨⟨_, readWith_joinedText h modifiers, signedKinds_written _⟩,
      starts_combineWith h modifiers, fun t => inRange_of_mem_combineWith h modifiers,
      _, read_text_combineWith h modifiers, signedKinds_written _⟩
  · intro σ source config request s outcome h
    obtain ⟨base, evaluation, hread, -, rfl⟩ := exists_of_resolve_ok h
    refine ⟨_, read_text_combineWith hread request.modifiers, ?_⟩
    have hterm := map_term_rollTerms source (config.overriddenBy request).explosions
      (base.combineWith (config.overriddenBy request).bounds request.modifiers).terms s
    rw [signedKinds_written, signedKinds, ← hterm, List.map_map]
    rfl

/-- Clamped dice, an expression with a sign inside, one that cannot be read, and a net at the least
amount, whose magnitude ends at the greatest. -/
theorem combine_concat_clamped :
    let modifiers : List Modifier := [⟨"Doom", .integer Int64.minValue⟩, ⟨"Typo", .dice "1x4"⟩,
      ⟨"Bless", .dice " 1D4 - 1"⟩, ⟨"Woe", .integer (-1)⟩]
    let combined := ((⟨[.dice .plus 1 1000]⟩ : Formula).combineChecked .clamp modifiers).1
    let result := (resolve Script.source { bounds := .clamp }
      ⟨some "0d5000", modifiers, none, none⟩ ⟨[700, 2], 0⟩).1
    (∃ joined, readWith .clamp "0d5000+ 1D4 - 1-9223372036854775807" = .ok joined ∧
      joined.signedKinds = combined.signedKinds) ∧
    combined.signedKinds = [(.plus, .dice 1 1000), (.plus, .dice 1 4), (.minus, .constant 1),
      (.minus, .constant 9223372036854775807)] ∧
    ∃ outcome, result = .ok outcome ∧ outcome.formula = "1d1000+1d4-1-9223372036854775807" ∧
      ∃ again, read outcome.formula = .ok again ∧
        again.signedKinds = outcome.rolledTerms.map fun t => (t.term.sign, t.term.kind) := by
  intro modifiers combined result
  have hread : readWith .clamp "0d5000" = .ok ⟨[.dice .plus 1 1000]⟩ := rfl
  have htext : joinedText .clamp "0d5000" modifiers = "0d5000+ 1D4 - 1-9223372036854775807" := by
    decide
  have hresult : result.map Outcome.formula = .ok "1d1000+1d4-1-9223372036854775807" := by
    decide
  obtain ⟨hjoined, -⟩ := combine_concat.1 .clamp "0d5000" modifiers _ hread
  obtain ⟨outcome, hok, hformula⟩ := exists_of_map_eq_ok hresult
  rw [htext] at hjoined
  exact ⟨hjoined, by decide, outcome, hok, hformula, combine_concat.2 _ _ _ _ outcome hok⟩

end Formula

end Tabletop
