import Tabletop.Proofs.Pool

/-!
# The end of the line

The name of a modifier and the expression of one that cannot be read stand in the line as they were
given. They may look like a total or a verdict, yet they cannot pass for one: all of them stand in
front of the last equals sign.

* `LastCut` — a text cut at the last place of a separator; `Text.behindLast?` finds what is behind.
* `Config.comparedWith` — what totals are compared with; `Evaluation.against_of` finds it in every
  judgement.
* `Evaluation.words` — what stands behind the equals sign, word by word; `Evaluation.ofWords?`
  reads it.
* `Evaluation.read?` — the judgement that a line tells.
* `resolve_line_end` — the line of an outcome ends with its total and its verdict.
-/

namespace Tabletop

/-! ## The last separator -/

/-- A text is cut at the last place where a separator stands in it. -/
structure LastCut (separator text front tail : String) : Prop where
  /-- the separator stands between the two parts -/
  eq : text = front ++ separator ++ tail
  /-- and it stands nowhere after -/
  last : ∀ before after, text = before ++ separator ++ after → before.length ≤ front.length

/-- A mark that is not behind the second place has its first place there or before. -/
theorem length_le_of_notMem {α : Type} {m : α} {a b x y : List α} (hy : m ∉ y)
    (h : a ++ m :: x = b ++ m :: y) : a.length ≤ b.length := by
  rcases List.append_eq_append_iff.mp h with ⟨between, hb, -⟩ | ⟨between, ha, hbehind⟩
  · rw [hb, List.length_append]
    exact Nat.le_add_right _ _
  · cases between with
    | nil => rw [ha, List.append_nil]
    | cons c between =>
      obtain ⟨-, rfl⟩ := List.cons.inj hbehind
      exact absurd (List.mem_append_right between List.mem_cons_self) hy

namespace Text

/-- What stands behind the last place of a separator in a text; none when it does not occur. -/
def behindLast? (separator : List Char) : List Char → Option (List Char)
  | [] => none
  | c :: cs =>
    (behindLast? separator cs).or
      (if separator.isPrefixOf (c :: cs) then some ((c :: cs).drop separator.length) else none)

theorem exists_of_behindLast? {separator text tail : List Char}
    (h : behindLast? separator text = some tail) : ∃ front, text = front ++ separator ++ tail := by
  induction text with
  | nil => cases h
  | cons c cs ih =>
    rw [behindLast?, Option.or_eq_some_iff] at h
    rcases h with h | ⟨-, h⟩
    · obtain ⟨front, rfl⟩ := ih h
      exact ⟨c :: front, rfl⟩
    · rw [Option.ite_none_right_eq_some] at h
      obtain ⟨hstarts, htail⟩ := h
      obtain ⟨behind, hbehind⟩ := List.isPrefixOf_iff_prefix.mp hstarts
      rw [← hbehind, List.drop_left, Option.some.injEq] at htail
      exact ⟨[], by rw [List.nil_append, ← htail, hbehind]⟩

/-- The separator that is found is the last one. -/
theorem behindLast?_append {separator front tail : List Char} (hne : separator ≠ [])
    (hlast : ∀ before after, front ++ separator ++ tail = before ++ separator ++ after →
      before.length ≤ front.length) :
    behindLast? separator (front ++ separator ++ tail) = some tail := by
  induction front with
  | nil =>
    obtain ⟨c, cs, rfl⟩ := List.exists_cons_of_ne_nil hne
    rw [List.nil_append, List.cons_append, behindLast?]
    -- one found in the rest would stand further behind
    have hrest : behindLast? (c :: cs) (cs ++ tail) = none := by
      refine Option.eq_none_iff_forall_ne_some.mpr fun after hafter => ?_
      obtain ⟨before, hbefore⟩ := exists_of_behindLast? hafter
      have := hlast (c :: before) after (congrArg (c :: ·) hbefore)
      cases this
    rw [hrest, Option.none_or, ← List.cons_append,
      if_pos (List.isPrefixOf_iff_prefix.mpr (List.prefix_append _ _)), List.drop_left]
  | cons c front ih =>
    have hrest : behindLast? separator (front ++ separator ++ tail) = some tail := by
      refine ih fun before after h => Nat.le_of_succ_le_succ ?_
      exact hlast (c :: before) after (congrArg (c :: ·) h)
    rw [List.cons_append, List.cons_append, behindLast?, hrest, Option.some_or]

end Text

theorem LastCut.behindLast?_eq {separator text front tail : String}
    (h : LastCut separator text front tail) (hne : separator ≠ "") :
    Text.behindLast? separator.toList text.toList = some tail.toList := by
  rw [h.eq, String.toList_append, String.toList_append]
  refine Text.behindLast?_append (fun hnil => hne (String.toList_eq_nil_iff.mp hnil)) ?_
  intro before after heq
  have := h.last (String.ofList before) (String.ofList after) ?_
  · rw [String.length_toList]
    rwa [String.length_ofList] at this
  · rw [h.eq, ← String.toList_inj]
    simpa using heq

/-! ## Spaced texts -/

/-- A character of a spaced text is a blank or in one of the parts. -/
theorem mem_spaced {parts : List (List Char)} {c : Char} (h : c ∈ spaced parts) :
    c = ' ' ∨ ∃ part ∈ parts, c ∈ part := by
  induction parts with
  | nil => cases h
  | cons part parts ih =>
    cases parts with
    | nil =>
      rw [spaced, List.intercalate_singleton] at h
      exact .inr ⟨part, List.mem_cons_self, h⟩
    | cons next parts =>
      rw [spaced, List.intercalate_cons_cons, List.append_assoc, List.mem_append, List.mem_append,
        List.mem_singleton] at h
      rcases h with h | h | h
      · exact .inr ⟨part, List.mem_cons_self, h⟩
      · exact .inl h
      · rcases ih h with hblank | ⟨other, hother, hc⟩
        · exact .inl hblank
        · exact .inr ⟨other, List.mem_cons_of_mem _ hother, hc⟩

/-! ## What totals are compared with -/

/-- What the totals of a configuration are compared with: the difficulty for a pool, otherwise the
target. -/
def Config.comparedWith (config : Config) : Option Amount :=
  match config.mechanic with
  | .dicePool => config.difficulty
  | .rollAndSum | .custom => config.target

namespace Evaluation

/-- Every judgement names what the configuration compares with, and has a verdict when there is
something. -/
theorem against_of {config : Config} {rolled : List RolledTerm} {extra : Amount}
    {evaluation : Evaluation} (h : Evaluation.of config rolled extra = .ok evaluation) :
    evaluation.against = config.comparedWith ∧
      evaluation.success.isSome = evaluation.against.isSome := by
  rw [Config.comparedWith]
  by_cases hpool : config.mechanic = .dicePool
  · obtain ⟨-, rfl⟩ := (of_eq_ok_iff hpool).mp h
    rw [hpool]
    exact ⟨rfl, Option.isSome_map⟩
  · rw [eq_ofSum_of_ne_dicePool h hpool]
    refine ⟨?_, Option.isSome_map⟩
    cases hm : config.mechanic with
    | dicePool => exact absurd hm hpool
    | rollAndSum => rfl
    | custom => rfl

/-! ## The words at the end -/

/-- What stands behind the equals sign, word by word. -/
def words (e : Evaluation) : List (List Char) :=
  Decimal.integer e.total.toInt ::
    match e.success, e.against with
    | some success, some against =>
      ["vs".toList, Decimal.integer against.toInt, ['(', verdictMark success, ')']]
    | _, _ => []

/-- The verdict of a mark in parentheses. -/
def verdict? : List Char → Option Bool
  | ['(', '✅', ')'] => some true
  | ['(', '❌', ')'] => some false
  | _ => none

/-- Reads a judgement from the words behind the equals sign. -/
def ofWords? : List (List Char) → Option Evaluation
  | [total] => do
    return ⟨← Amount.read? total, none, none⟩
  | [total, _, against, mark] => do
    return ⟨← Amount.read? total, some (← verdict? mark), some (← Amount.read? against)⟩
  | _ => none

/-- The judgement that a line tells: what the words behind its last equals sign say. -/
def read? (line : String) : Option Evaluation :=
  (Text.behindLast? " = ".toList line.toList).bind fun tail => ofWords? (tail.splitOn ' ')

theorem verdictChars_eq (e : Evaluation) : verdictChars e = " = ".toList ++ spaced e.words := by
  obtain ⟨total, success, against⟩ := e
  cases success with
  | none => simp [verdictChars, words, spaced]
  | some success =>
    cases against with
    | none => simp [verdictChars, words, spaced]
    | some against => simp [verdictChars, words, spaced]

@[simp] theorem verdict?_verdictMark (success : Bool) :
    verdict? ['(', verdictMark success, ')'] = some success := by
  cases success <;> rfl

/-- A judgement is read back from its words, unless it has a verdict on nothing. -/
theorem ofWords?_words {e : Evaluation} (h : e.success.isSome = e.against.isSome) :
    ofWords? e.words = some e := by
  obtain ⟨total, success, against⟩ := e
  cases success with
  | none =>
    obtain rfl : against = none := Option.not_isSome_iff_eq_none.mp (ne_true_of_eq_false h.symm)
    simp [words, ofWords?]
  | some success =>
    obtain ⟨against, rfl⟩ := Option.isSome_iff_exists.mp h.symm
    simp [words, ofWords?]

theorem text_words_of_none {e : Evaluation} (h : e.success = none) :
    String.ofList (spaced e.words) = e.total.text := by
  rw [words, h, spaced, List.intercalate_singleton, Amount.text]

theorem text_words_of_some {e : Evaluation} {verdict : Bool} {a : Amount}
    (h : e.success = some verdict) (ha : e.against = some a) :
    String.ofList (spaced e.words) =
      e.total.text ++ " vs " ++ a.text ++ String.ofList [' ', '(', verdictMark verdict, ')'] := by
  rw [words, h, ha, ← String.toList_inj]
  simp [spaced, Amount.text]

/-- Neither a blank nor an equals sign stands in a word. -/
theorem forall_mem_words (e : Evaluation) : ∀ word ∈ e.words, ' ' ∉ word ∧ '=' ∉ word := by
  have hinteger : ∀ n, ' ' ∉ Decimal.integer n ∧ '=' ∉ Decimal.integer n := fun n =>
    ⟨fun h => absurd (Decimal.mem_integer h) (by decide),
      fun h => absurd (Decimal.mem_integer h) (by decide)⟩
  have hmark : ∀ verdict, ' ' ∉ ['(', verdictMark verdict, ')'] ∧
      '=' ∉ ['(', verdictMark verdict, ')'] := by decide
  obtain ⟨total, success, against⟩ := e
  intro word hword
  rcases List.mem_cons.mp hword with rfl | hword
  · exact hinteger _
  · dsimp only at hword
    split at hword
    · simp only [List.mem_cons, List.not_mem_nil, or_false] at hword
      rcases hword with rfl | rfl | rfl
      · decide
      · exact hinteger _
      · exact hmark _
    · cases hword

theorem splitOn_words (e : Evaluation) : (spaced e.words).splitOn ' ' = e.words :=
  List.splitOn_intercalate ' ' (fun word h => (e.forall_mem_words word h).1) (List.cons_ne_nil _ _)

theorem equals_notMem_words (e : Evaluation) : '=' ∉ spaced e.words := by
  intro h
  rcases mem_spaced h with h | ⟨word, hword, h⟩
  · cases h
  · exact (e.forall_mem_words word hword).2 h

end Evaluation

/-! ## The line -/

/-- The last equals sign between blanks is the one in front of the total. -/
theorem lastCut_describe (rolled : List RolledTerm) (e : Evaluation) (descriptions : List String) :
    LastCut " = " (describe rolled e descriptions)
      (String.ofList (spaced (breakdownParts rolled descriptions)))
      (String.ofList (spaced e.words)) := by
  have heq : describe rolled e descriptions =
      String.ofList (spaced (breakdownParts rolled descriptions)) ++ " = " ++
        String.ofList (spaced e.words) := by
    rw [describe, e.verdictChars_eq, ← String.toList_inj]
    simp
  refine ⟨heq, fun before after h => ?_⟩
  have hchars := String.toList_inj.mpr (h.symm.trans heq)
  have hle : (before.toList ++ [' ']).length ≤
      (spaced (breakdownParts rolled descriptions) ++ [' ']).length := by
    refine length_le_of_notMem (m := '=') (x := ' ' :: after.toList)
      (y := ' ' :: spaced e.words) ?_ (by simpa using hchars)
    simpa using e.equals_notMem_words
  rw [String.length_ofList, ← String.length_toList]
  simpa only [List.length_append, Nat.add_le_add_iff_right] using hle

/-- A line tells the judgement that it was made of. -/
theorem Evaluation.read?_describe (rolled : List RolledTerm) {e : Evaluation}
    (h : e.success.isSome = e.against.isSome) (descriptions : List String) :
    read? (describe rolled e descriptions) = some e := by
  rw [read?, (lastCut_describe rolled e descriptions).behindLast?_eq (by decide), Option.bind_some,
    String.toList_ofList, e.splitOn_words, ofWords?_words h]

/-- Only a line that ends with the mark of a success tells one. -/
theorem suffix_describe_iff (rolled : List RolledTerm) {e : Evaluation}
    (h : e.success.isSome = e.against.isSome) (descriptions : List String) :
    "(✅)".toList <:+ (describe rolled e descriptions).toList ↔ e.success = some true := by
  have hline : verdictChars e <:+ (describe rolled e descriptions).toList := by
    rw [describe, String.toList_ofList]
    exact List.suffix_append _ _
  obtain ⟨total, success, against⟩ := e
  cases success with
  | none =>
    -- a number behind an equals sign and a mark do not end in the same way
    refine iff_of_false (fun hmark => ?_) (Option.some_ne_none true).symm
    rcases List.suffix_or_suffix_of_suffix hline hmark with hsuffix | hsuffix
    · have : '=' ∈ "(✅)".toList := hsuffix.subset (by simp [verdictChars])
      exact absurd this (by decide)
    · have : ')' ∈ verdictChars ⟨total, none, against⟩ := hsuffix.subset (by decide)
      rw [verdictChars, List.append_nil, List.mem_append] at this
      rcases this with h | h
      · exact absurd h (by decide)
      · exact absurd (Decimal.mem_integer h) (by decide)
  | some success =>
    obtain ⟨against, rfl⟩ := Option.isSome_iff_exists.mp h.symm
    have hend : ['(', verdictMark success, ')'] <:+
        verdictChars ⟨total, some success, some against⟩ :=
      ⟨" = ".toList ++ Decimal.integer total.toInt ++ " vs ".toList ++
        Decimal.integer against.toInt ++ [' '], by simp [verdictChars]⟩
    rw [Option.some.injEq]
    constructor
    · intro hmark
      have heq : ['(', verdictMark success, ')'] = "(✅)".toList := by
        rcases List.suffix_or_suffix_of_suffix (hend.trans hline) hmark with hsuffix | hsuffix
        · exact hsuffix.eq_of_length rfl
        · exact (hsuffix.eq_of_length rfl).symm
      revert heq
      cases success <;> decide
    · rintro rfl
      exact hend.trans hline

/-- **The verdict of a line cannot be forged and can be read back.** The line of an outcome, cut at
its last equals sign between blanks, ends with the total alone when there is no verdict, and
otherwise with the total, what it was compared with and the mark of the verdict. What it was
compared with is the difficulty for a pool and the target for other rolls. So the line ends with the
mark of a success exactly when the roll succeeded, and the text alone tells the total, the verdict
and what was compared with, whatever the modifiers are called. -/
theorem resolve_line_end {σ : Type} {source : DieSource σ} {config : Config} {request : Request}
    {s : σ} {outcome : Outcome} (h : (resolve source config request s).1 = .ok outcome) :
    let against := (config.overriddenBy request).comparedWith
    (∃ front tail, LastCut " = " outcome.description front tail ∧
      (outcome.success = none → tail = outcome.total.text) ∧
      (outcome.success = some true → ∃ a, against = some a ∧
        tail = outcome.total.text ++ " vs " ++ a.text ++ " (✅)") ∧
      (outcome.success = some false → ∃ a, against = some a ∧
        tail = outcome.total.text ++ " vs " ++ a.text ++ " (❌)")) ∧
    outcome.success.isSome = against.isSome ∧
    ("(✅)".toList <:+ outcome.description.toList ↔ outcome.success = some true) ∧
    Evaluation.read? outcome.description = some ⟨outcome.total, outcome.success, against⟩ := by
  intro against
  obtain ⟨base, e, -, he, rfl⟩ := exists_of_resolve_ok h
  obtain ⟨hagainst, hsuccess⟩ := Evaluation.against_of he
  have hverdict : ∀ verdict, e.success = some verdict → ∃ a, e.against = some a ∧
      String.ofList (spaced e.words) =
        e.total.text ++ " vs " ++ a.text ++ String.ofList [' ', '(', verdictMark verdict, ')'] := by
    intro verdict hsome
    obtain ⟨a, ha⟩ := Option.isSome_iff_exists.mp
      (hsuccess.symm.trans (Option.isSome_of_eq_some hsome))
    exact ⟨a, ha, Evaluation.text_words_of_some hsome ha⟩
  have hcompared : against = e.against := hagainst.symm
  rw [hcompared]
  exact ⟨⟨_, _, lastCut_describe _ e _, Evaluation.text_words_of_none, hverdict true,
    hverdict false⟩, hsuccess, suffix_describe_iff _ hsuccess _,
    Evaluation.read?_describe _ hsuccess _⟩

/-- A modifier that is called like a verdict, in a pool that fails: the forged verdicts stand in
front of the true one. -/
theorem resolve_line_end_forged :
    let config : Config := { Config.pool "2d10" 8 with difficulty := some 2 }
    let request : Request := { modifiers := [⟨"Luck = 9 vs 1 (✅)", .dice "x = 7 vs 2 (✅)"⟩] }
    ∃ o, (resolve Script.source config request ⟨[9, 3], 0⟩).1 = .ok o ∧
      o.description =
        "2d10 [9, 3] +0 Luck = 9 vs 1 (✅) (invalid: x = 7 vs 2 (✅)) = 1 vs 2 (❌)" ∧
      ¬ "(✅)".toList <:+ o.description.toList ∧
      Evaluation.read? o.description = some ⟨1, some false, some 2⟩ := by
  intro config request
  have hresolve : (resolve Script.source config request ⟨[9, 3], 0⟩).1.map
      (fun o => (o.description, o.total, o.success)) =
        .ok ("2d10 [9, 3] +0 Luck = 9 vs 1 (✅) (invalid: x = 7 vs 2 (✅)) = 1 vs 2 (❌)", 1,
          some false) := by decide
  obtain ⟨o, ho, hfields⟩ := exists_of_map_eq_ok hresolve
  obtain ⟨hdescription, hrest⟩ := Prod.mk.inj hfields
  obtain ⟨htotal, hsuccess⟩ := Prod.mk.inj hrest
  obtain ⟨-, -, hmark, hread⟩ := resolve_line_end ho
  rw [hsuccess] at hmark
  rw [htotal, hsuccess] at hread
  exact ⟨o, ho, hdescription, fun hforged => absurd (hmark.mp hforged) (by decide), hread⟩

end Tabletop
