import Mathlib.Data.List.TakeWhile
import Tabletop.Modifier.Basic
import Tabletop.Proofs.Formula.Spelling

/-!
# Modifiers as text

A modifier is read from `NAME=VALUE` and written in the same form. What is read is trimmed, so not
every modifier can come from a text; one that can is read back from what is written for it.

* `Text.trim_eq_iff` — what is left of a text without the blanks at its ends.
* `Decimal.Writes` — the whole numbers that texts write; `Amount.read?_eq_some_iff` reads those in
  range.
* `Modifier.read_eq_ok_iff` — what a text reads as.
* `Modifier.Writable` — the modifiers that a text can be written for.
* `Modifier.read_inverse_text` — reading and writing undo each other on these.
-/

namespace Tabletop

/-! ## Trimmed texts -/

namespace Text

variable {cs core : List Char}

theorem trimStart_eq_iff : trimStart cs = core ↔
    (∃ before, cs = before ++ core ∧ ∀ c ∈ before, isBlank c = true) ∧
      ∀ c ∈ core.head?, isBlank c = false := by
  constructor
  · rintro rfl
    refine ⟨⟨cs.takeWhile isBlank, List.takeWhile_append_dropWhile.symm,
      fun c => List.mem_takeWhile_imp⟩, fun c hc => ?_⟩
    have hfirst := List.head?_dropWhile_not isBlank cs
    rw [trimStart, Option.mem_def] at hc
    rwa [hc] at hfirst
  · rintro ⟨⟨before, rfl, hbefore⟩, hfirst⟩
    rw [trimStart, List.dropWhile_append_of_pos hbefore]
    cases core with
    | nil => rfl
    | cons c rest =>
      exact List.dropWhile_cons_of_neg (ne_true_of_eq_false (hfirst c rfl))

theorem trimEnd_eq_iff : trimEnd cs = core ↔
    (∃ after, cs = core ++ after ∧ ∀ c ∈ after, isBlank c = true) ∧
      ∀ c ∈ core.getLast?, isBlank c = false := by
  have hreverse : trimEnd cs = core ↔ trimStart cs.reverse = core.reverse := by
    rw [trimEnd, List.reverse_eq_iff]
    rfl
  rw [hreverse, trimStart_eq_iff, List.head?_reverse]
  refine and_congr_left' ⟨?_, ?_⟩
  · rintro ⟨before, heq, hbefore⟩
    refine ⟨before.reverse, ?_, fun c hc => hbefore c (List.mem_reverse.mp hc)⟩
    rw [← List.reverse_inj, heq, List.reverse_append, List.reverse_reverse]
  · rintro ⟨after, rfl, hafter⟩
    exact ⟨after.reverse, List.reverse_append, fun c hc => hafter c (List.mem_reverse.mp hc)⟩

/-- **A trimmed text** is what stands between blanks and has no blank at either end. -/
theorem trim_eq_iff : trim cs = core ↔
    (∃ before after, cs = before ++ core ++ after ∧ (∀ c ∈ before, isBlank c = true) ∧
      ∀ c ∈ after, isBlank c = true) ∧
    (∀ c ∈ core.head?, isBlank c = false) ∧ ∀ c ∈ core.getLast?, isBlank c = false := by
  constructor
  · intro h
    obtain ⟨⟨before, hcs, hbefore⟩, hfirst⟩ := trimStart_eq_iff.mp rfl
    obtain ⟨⟨after, hstart, hafter⟩, hlast⟩ := trimEnd_eq_iff.mp h
    rw [hstart] at hcs hfirst
    refine ⟨⟨before, after, by rw [hcs, List.append_assoc], hbefore, hafter⟩, ?_, hlast⟩
    intro c hc
    refine hfirst c ?_
    rw [List.head?_append, hc]
    rfl
  · rintro ⟨⟨before, after, rfl, hbefore, hafter⟩, hfirst, hlast⟩
    rw [trim]
    cases core with
    | nil =>
      have hnil : trimStart (before ++ [] ++ after) = [] := by
        rw [trimStart, List.dropWhile_eq_nil_iff]
        simpa [or_imp, forall_and] using ⟨hbefore, hafter⟩
      rw [hnil]
      rfl
    | cons c rest =>
      have hstart : trimStart (before ++ c :: rest ++ after) = c :: rest ++ after :=
        trimStart_eq_iff.mpr ⟨⟨before, List.append_assoc .., hbefore⟩, hfirst⟩
      rw [hstart]
      exact trimEnd_eq_iff.mpr ⟨⟨after, rfl, hafter⟩, hlast⟩

/-- Trimming a trimmed text changes nothing. -/
theorem trim_trim (cs : List Char) : trim (trim cs) = trim cs :=
  trim_eq_iff.mpr ⟨⟨[], [], by simp, by simp, by simp⟩, (trim_eq_iff.mp rfl).2⟩

theorem mem_of_mem_trim {c : Char} (h : c ∈ trim cs) : c ∈ cs := by
  obtain ⟨⟨before, after, heq, -, -⟩, -⟩ := trim_eq_iff.mp (rfl : trim cs = trim cs)
  rw [heq]
  exact List.mem_append_left after (List.mem_append_right before h)

/-- A text without blanks is trimmed. -/
theorem trim_of_forall (h : ∀ c ∈ cs, isBlank c = false) : trim cs = cs :=
  trim_eq_iff.mpr ⟨⟨[], [], by simp, by simp, by simp⟩,
    fun c hc => h c (List.mem_of_mem_head? hc), fun c hc => h c (List.mem_of_mem_getLast? hc)⟩

end Text

/-! ## Whole numbers -/

/-- The whole number that a text writes: one or more ASCII digits behind an optional sign. -/
inductive Decimal.Writes : List Char → Int → Prop where
  /-- digits alone -/
  | unsigned {ds : List Char} : IsRun ds → Writes ds (value ds)
  /-- digits behind a plus sign -/
  | plus {ds : List Char} : IsRun ds → Writes ('+' :: ds) (value ds)
  /-- digits behind a minus sign -/
  | minus {ds : List Char} : IsRun ds → Writes ('-' :: ds) (-(value ds))

theorem Decimal.integer?_eq_some_iff {cs : List Char} {n : Int} :
    integer? cs = some n ↔ Writes cs n := by
  have hnatural : ∀ ds (f : Nat → Int), (natural? ds).map f = some n ↔
      IsRun ds ∧ f (value ds) = n := by
    intro ds f
    rw [Option.map_eq_some_iff]
    constructor
    · rintro ⟨v, hv, rfl⟩
      obtain ⟨hrun, rfl⟩ := natural?_eq_some_iff.mp hv
      exact ⟨hrun, rfl⟩
    · rintro ⟨hrun, rfl⟩
      exact ⟨value ds, hrun.natural?, rfl⟩
  constructor
  · intro h
    unfold integer? at h
    split at h
    · obtain ⟨hrun, rfl⟩ := (hnatural _ _).mp h
      exact .minus hrun
    · obtain ⟨hrun, rfl⟩ := (hnatural _ _).mp h
      exact .plus hrun
    · obtain ⟨hrun, rfl⟩ := (hnatural _ _).mp h
      exact .unsigned hrun
  · intro h
    cases h with
    | minus hrun => exact (hnatural _ _).mpr ⟨hrun, rfl⟩
    | plus hrun => exact (hnatural _ _).mpr ⟨hrun, rfl⟩
    | unsigned hrun =>
      -- the first digit is neither sign
      unfold integer?
      split
      · exact absurd (hrun.isDigit List.mem_cons_self) (by decide)
      · exact absurd (hrun.isDigit List.mem_cons_self) (by decide)
      · exact (hnatural _ _).mpr ⟨hrun, rfl⟩

theorem Decimal.signed_ne_nil (n : Int) : signed n ≠ [] := by
  rw [signed]
  split <;> exact List.cons_ne_nil _ _

theorem Decimal.isBlank_of_mem_signed {n : Int} {c : Char} (h : c ∈ signed n) :
    Text.isBlank c = false := by
  rcases mem_signed h with rfl | rfl | hdigit
  · rfl
  · rfl
  · exact Text.isBlank_of_isDigit hdigit

namespace Amount

theorem ofInt?_eq_some_iff {n : Int} {a : Amount} : ofInt? n = some a ↔ a.toInt = n := by
  constructor
  · exact toInt_of_ofInt?
  · rintro rfl
    exact ofInt?_toInt a

/-- An amount is read from a text that writes it. -/
theorem read?_eq_some_iff {cs : List Char} {a : Amount} :
    read? cs = some a ↔ Decimal.Writes cs a.toInt := by
  rw [read?, Option.bind_eq_some_iff]
  constructor
  · rintro ⟨n, hn, ha⟩
    rw [ofInt?_eq_some_iff.mp ha]
    exact Decimal.integer?_eq_some_iff.mp hn
  · intro h
    exact ⟨a.toInt, Decimal.integer?_eq_some_iff.mpr h, ofInt?_toInt a⟩

theorem read?_eq_none_iff {cs : List Char} :
    read? cs = none ↔ ∀ a : Amount, ¬ Decimal.Writes cs a.toInt := by
  rw [Option.eq_none_iff_forall_ne_some]
  exact forall_congr' fun a => not_congr read?_eq_some_iff

end Amount

/-! ## Reading -/

namespace Modifier

/-- A value reads as a whole number exactly when it writes one in range. -/
theorem readValue_eq_integer_iff {cs : List Char} {a : Amount} :
    readValue cs = .integer a ↔ Decimal.Writes cs a.toInt := by
  rw [← Amount.read?_eq_some_iff, readValue]
  split
  · next amount hread => rw [ModifierValue.integer.injEq, hread, Option.some.injEq]
  · next hread => simp [hread]

/-- Otherwise it reads as the expression that it is. -/
theorem readValue_eq_dice_iff {cs : List Char} {expression : String} :
    readValue cs = .dice expression ↔
      expression.toList = cs ∧ ∀ a : Amount, ¬ Decimal.Writes cs a.toInt := by
  rw [← Amount.read?_eq_none_iff, readValue]
  split
  · next amount hread => simp [hread]
  · next hread =>
    rw [ModifierValue.dice.injEq, ← String.toList_inj, String.toList_ofList, hread,
      eq_comm, eq_self, and_true]

/-- **What a text reads as**: it has an equals sign, and neither what stands in front of the first
one nor what stands behind it is blank. -/
theorem read_eq_ok_iff {s : String} {m : Modifier} : read s = .ok m ↔
    ∃ name value, s.toList = name ++ '=' :: value ∧ '=' ∉ name ∧ Text.trim name ≠ [] ∧
      Text.trim value ≠ [] ∧ m = ⟨String.ofList (Text.trim name), readValue (Text.trim value)⟩ := by
  rw [read]
  constructor
  · intro h
    cases hcut : cut s.toList with
    | none =>
      rw [hcut] at h
      cases h
    | some parts =>
      obtain ⟨name, value⟩ := parts
      obtain ⟨heq, hname⟩ := cut_eq_some_iff.mp hcut
      rw [hcut] at h
      dsimp only at h
      split at h
      · cases h
      · next hn =>
        split at h
        · cases h
        · next hv => exact ⟨name, value, heq, hname, hn, hv, (Except.ok.inj h).symm⟩
  · rintro ⟨name, value, heq, hname, hn, hv, rfl⟩
    rw [cut_eq_some_iff.mpr ⟨heq, hname⟩]
    dsimp only
    rw [if_neg hn, if_neg hv]

/-- A modifier that a text can be written for: its name is trimmed and has no equals sign. An
expression is trimmed too; it may have equals signs, but writes no whole number in range. -/
structure Writable (m : Modifier) : Prop where
  /-- there is a name -/
  name_ne : m.name ≠ ""
  /-- without blanks at its ends -/
  trimmed : Text.trim m.name.toList = m.name.toList
  /-- and without an equals sign -/
  equals_notMem : '=' ∉ m.name.toList
  /-- an expression is not taken for something else -/
  expression : ∀ e, m.value = .dice e → e ≠ "" ∧ Text.trim e.toList = e.toList ∧
    ∀ a : Amount, ¬ Decimal.Writes e.toList a.toInt

theorem writable_of_read {s : String} {m : Modifier} (h : read s = .ok m) : m.Writable := by
  obtain ⟨name, value, -, hequals, hname, hvalue, rfl⟩ := read_eq_ok_iff.mp h
  refine ⟨?_, ?_, ?_, fun e he => ?_⟩
  · exact fun hnil => hname (String.ofList_eq_empty_iff.mp hnil)
  · rw [String.toList_ofList, Text.trim_trim]
  · rw [String.toList_ofList]
    exact fun hmem => hequals (Text.mem_of_mem_trim hmem)
  · obtain ⟨hexpression, hwrites⟩ := readValue_eq_dice_iff.mp he
    rw [hexpression]
    refine ⟨?_, Text.trim_trim value, hwrites⟩
    rintro rfl
    exact hvalue hexpression.symm

/-- The text of a value is trimmed and not empty, and reads as that value. -/
theorem Writable.value {m : Modifier} (h : m.Writable) :
    Text.trim m.value.text.toList = m.value.text.toList ∧ m.value.text.toList ≠ [] ∧
      readValue m.value.text.toList = m.value := by
  cases hvalue : m.value with
  | integer a =>
    rw [ModifierValue.text, Amount.signedText, String.toList_ofList]
    refine ⟨Text.trim_of_forall fun c => Decimal.isBlank_of_mem_signed,
      Decimal.signed_ne_nil _, ?_⟩
    rw [readValue, Amount.read?_signed]
  | dice e =>
    obtain ⟨hne, htrim, hwrites⟩ := h.expression e hvalue
    refine ⟨htrim, ?_, readValue_eq_dice_iff.mpr ⟨rfl, hwrites⟩⟩
    exact fun hnil => hne (String.toList_eq_nil_iff.mp hnil)

theorem Writable.read_text {m : Modifier} (h : m.Writable) : read m.text = .ok m := by
  obtain ⟨htrim, hne, hread⟩ := h.value
  refine read_eq_ok_iff.mpr ⟨m.name.toList, m.value.text.toList, ?_, h.equals_notMem, ?_, ?_, ?_⟩
  · simp [text]
  · rw [h.trimmed]
    exact fun hnil => h.name_ne (String.toList_eq_nil_iff.mp hnil)
  · rwa [htrim]
  · rw [h.trimmed, htrim, hread, String.ofList_toList]

/-- **Reading and writing undo each other on the modifiers that texts can be written for.** A text
reads as a modifier exactly when it has an equals sign and neither what stands in front of the first
one nor what stands behind it is blank. The modifier has the trimmed name; its value is the whole
number that the trimmed value writes, if it writes one in range, and the trimmed value as an
expression otherwise. A modifier is read from some text exactly when its name is trimmed, not empty
and without an equals sign and its value is a whole number or a trimmed expression that is not empty
and writes no whole number in range; and such a modifier is read back from its own text. -/
theorem read_inverse_text :
    (∀ s : String, (∃ m, read s = .ok m) ↔ ∃ name value, s.toList = name ++ '=' :: value ∧
      '=' ∉ name ∧ Text.trim name ≠ [] ∧ Text.trim value ≠ []) ∧
    (∀ (s : String) (m : Modifier) (name value : List Char), read s = .ok m →
      s.toList = name ++ '=' :: value → '=' ∉ name →
        m.name.toList = Text.trim name ∧
        (∀ a, m.value = .integer a ↔ Decimal.Writes (Text.trim value) a.toInt) ∧
        ((∀ a : Amount, ¬ Decimal.Writes (Text.trim value) a.toInt) →
          m.value = .dice (String.ofList (Text.trim value)))) ∧
    (∀ m : Modifier, (∃ s, read s = .ok m) ↔ m.Writable) ∧
    ∀ m : Modifier, m.Writable → read m.text = .ok m := by
  refine ⟨fun s => ⟨?_, ?_⟩, ?_, fun m => ⟨?_, fun h => ⟨m.text, h.read_text⟩⟩,
    fun m => Writable.read_text⟩
  · rintro ⟨m, h⟩
    obtain ⟨name, value, heq, hequals, hname, hvalue, -⟩ := read_eq_ok_iff.mp h
    exact ⟨name, value, heq, hequals, hname, hvalue⟩
  · rintro ⟨name, value, heq, hequals, hname, hvalue⟩
    exact ⟨_, read_eq_ok_iff.mpr ⟨name, value, heq, hequals, hname, hvalue, rfl⟩⟩
  · intro s m name value h heq hequals
    obtain ⟨name', value', heq', hequals', -, -, rfl⟩ := read_eq_ok_iff.mp h
    have hcut := (cut_eq_some_iff.mpr ⟨heq', hequals'⟩).symm.trans
      (cut_eq_some_iff.mpr ⟨heq, hequals⟩)
    obtain ⟨rfl, rfl⟩ := Prod.mk.inj (Option.some.inj hcut)
    refine ⟨String.toList_ofList, fun a => readValue_eq_integer_iff, fun hwrites => ?_⟩
    exact readValue_eq_dice_iff.mpr ⟨String.toList_ofList, hwrites⟩
  · rintro ⟨s, h⟩
    exact writable_of_read h

/-- The least amount, an expression with an equals sign, and a sign without digits, which is an
expression too; one with digits is none. -/
theorem read_inverse_text_least :
    (∃ m, read " Doom\t=\u00a0-009223372036854775808 " = .ok m ∧ m.name = "Doom" ∧
      m.value = .integer Int64.minValue) ∧
    read "Doom=-9223372036854775808" = .ok ⟨"Doom", .integer Int64.minValue⟩ ∧
    read "Odd==1d4=+" = .ok ⟨"Odd", .dice "=1d4=+"⟩ ∧
    (∃ s, read s = .ok ⟨"Up", .dice "+"⟩) ∧ ¬ ∃ s, read s = .ok ⟨"Up", .dice "+1"⟩ := by
  obtain ⟨hreads, hvalue, himage, hback⟩ := read_inverse_text
  have hdice : ∀ name e, name ≠ "" → Text.trim name.toList = name.toList → '=' ∉ name.toList →
      e ≠ "" → Text.trim e.toList = e.toList → Amount.read? e.toList = none →
      Writable ⟨name, .dice e⟩ := by
    intro name e hname htrim hequals he htrim' hread
    refine ⟨hname, htrim, hequals, fun e' heq => ?_⟩
    cases heq
    exact ⟨he, htrim', Amount.read?_eq_none_iff.mp hread⟩
  refine ⟨?_, ?_, ?_, ?_, ?_⟩
  · obtain ⟨m, hm⟩ := (hreads " Doom\t=\u00a0-009223372036854775808 ").mpr
      ⟨" Doom\t".toList, "\u00a0-009223372036854775808 ".toList, by decide, by decide, by decide,
        by decide⟩
    obtain ⟨hname, hinteger, -⟩ := hvalue _ m " Doom\t".toList
      "\u00a0-009223372036854775808 ".toList hm (by decide) (by decide)
    refine ⟨m, hm, String.toList_inj.mp (hname.trans (by decide)), (hinteger _).mpr ?_⟩
    exact Amount.read?_eq_some_iff.mp (by decide)
  · exact hback ⟨"Doom", .integer Int64.minValue⟩ ⟨by decide, by decide, by decide, nofun⟩
  · exact hback _ (hdice "Odd" "=1d4=+" (by decide) (by decide) (by decide) (by decide) (by decide)
      (by decide))
  · exact (himage _).mpr (hdice "Up" "+" (by decide) (by decide) (by decide) (by decide)
      (by decide) (by decide))
  · intro hsome
    obtain ⟨-, -, hwrites⟩ := ((himage _).mp hsome).expression "+1" rfl
    exact hwrites 1 (Amount.read?_eq_some_iff.mp (by decide))

end Modifier

end Tabletop
