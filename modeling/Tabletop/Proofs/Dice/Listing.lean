import Tabletop.Description
import Tabletop.Proofs.Formula.Spelling
import Tabletop.Proofs.Sequence

/-!
# What a list of dice tells

The line shows dice as `[4, [6+2], [6+…+6 (4 rolls, capped)]]`. A comma may stand inside a die, and
yet the text tells where each die ends, and of each die all that it shows.

* `RolledDie.Alike` — dice that differ at most in what the line leaves out: the rolls between the
  ends of a capped chain.
* `RolledDie.chars_eq_iff` — dice have one text exactly when they are alike.
* `Delimited` — texts that tell where they end; `Delimited.append_inj` cuts them off, and
  `Delimited.intercalate_inj` takes a list of them apart.
* `diceChars_eq_iff` — lists of dice have one text exactly when they are alike die by die.
-/

namespace Tabletop

/-! ## Parts and numbers in a text -/

/-- Parts with a separator between them: the first part, and the others behind a separator. -/
theorem intercalate_cons_eq_append {α : Type} (separator part : List α) (parts : List (List α)) :
    separator.intercalate (part :: parts) = part ++ parts.flatMap (separator ++ ·) := by
  induction parts generalizing part with
  | nil => simp
  | cons next parts ih => simp [List.intercalate_cons_cons, ih]

namespace Decimal

theorem digits_inj {m n : Nat} : digits m = digits n ↔ m = n := by
  refine ⟨fun h => ?_, congrArg digits⟩
  rw [← value_digits m, h, value_digits]

theorem notMem_digits {c : Char} (h : c.isDigit = false) (n : Nat) : c ∉ digits n :=
  fun hc => ne_true_of_eq_false h (isDigit_of_mem_digits hc)

/-- A number in front of a mark is told by the text. -/
theorem digits_append_inj {m n : Nat} {mark rest others : List Char}
    (hmark : ∃ c, mark.head? = some c ∧ c.isDigit = false)
    (h : digits m ++ (mark ++ rest) = digits n ++ (mark ++ others)) : m = n ∧ rest = others := by
  obtain ⟨c, hc, hdigit⟩ := hmark
  obtain ⟨tail, rfl⟩ := List.head?_eq_some_iff.mp hc
  obtain ⟨hdigits, hrest⟩ := Sequence.append_inj_of_forall (fun _ => isDigit_of_mem_digits)
    (fun _ => isDigit_of_mem_digits) (by simpa using hdigit) (by simpa using hdigit) h
  exact ⟨digits_inj.mp hdigits, List.append_cancel_left hrest⟩

end Decimal

/-! ## One die -/

namespace RolledDie

open Decimal

/-- Dice that the line shows in the same way. -/
structure Alike (a b : RolledDie) : Prop where
  /-- the cap stopped both or neither -/
  capped : a.capped = b.capped
  /-- they were rolled as often -/
  length : a.rolls.length = b.rolls.length
  /-- the natural rolls agree -/
  first : a.rolls.head? = b.rolls.head?
  /-- and so do the last rolls -/
  last : a.rolls.getLast? = b.rolls.getLast?
  /-- the rolls in between may differ, but only those of a capped chain -/
  rolls : ¬ (a.capped = true ∧ 2 ≤ a.rolls.length) → a.rolls = b.rolls

theorem Alike.of_eq {a b : RolledDie} (h : a = b) : a.Alike b := by
  subst h
  exact ⟨rfl, rfl, rfl, rfl, fun _ => rfl⟩

/-- Only the text of a capped die has a parenthesis. -/
theorem parenthesis_mem_chars_iff (die : RolledDie) : ')' ∈ die.chars ↔ die.capped = true := by
  have hdigits : ∀ n, ')' ∉ digits n := notMem_digits rfl
  match die with
  | ⟨[], false⟩ => simp [chars]
  | ⟨[], true⟩ => simp [chars]
  | ⟨[_], false⟩ => simp [chars, hdigits]
  | ⟨[_], true⟩ => simp [chars]
  | ⟨_ :: _ :: _, false⟩ => simp [chars, intercalate_cons_eq_append, hdigits]
  | ⟨_ :: _ :: _, true⟩ => simp [chars]

/-- Only the text of a chain has a plus. -/
theorem plus_mem_chars_iff (die : RolledDie) : '+' ∈ die.chars ↔ 2 ≤ die.rolls.length := by
  have hdigits : ∀ n, '+' ∉ digits n := notMem_digits rfl
  match die with
  | ⟨[], false⟩ => simp [chars]
  | ⟨[], true⟩ => simp [chars]
  | ⟨[_], false⟩ => simp [chars, hdigits]
  | ⟨[_], true⟩ => simp [chars, hdigits]
  | ⟨_ :: _ :: _, false⟩ => simp [chars, intercalate_cons_eq_append, hdigits]
  | ⟨_ :: _ :: _, true⟩ => simp [chars]

theorem digits_toNat_inj {a b : UInt32} : digits a.toNat = digits b.toNat ↔ a = b := by
  rw [digits_inj, UInt32.toNat_inj]

theorem chars_chain (first second : UInt32) (rest : List UInt32) :
    chars ⟨first :: second :: rest, false⟩ = '[' :: (['+'].intercalate
      ((first :: second :: rest).map fun r => digits r.toNat) ++ [']']) := by
  simp [chars]

theorem chars_capped_chain (first second : UInt32) (rest : List UInt32) :
    chars ⟨first :: second :: rest, true⟩ = '[' :: (digits first.toNat ++ ("+…+".toList ++
      (digits ((second :: rest).getLastD first).toNat ++ (" (".toList ++
        (digits (rest.length + 2) ++ (" rolls, capped)".toList ++ [']'])))))) := by
  simp [chars]

/-- A chain tells each of its rolls. -/
theorem intercalate_digits_inj {rolls others : List UInt32} (hne : rolls ≠ []) (hne' : others ≠ [])
    (h : ['+'].intercalate (rolls.map fun r => digits r.toNat) =
      ['+'].intercalate (others.map fun r => digits r.toNat)) : rolls = others := by
  have hsplit : ∀ {rolls : List UInt32}, rolls ≠ [] →
      (['+'].intercalate (rolls.map fun r => digits r.toNat)).splitOn '+' =
        rolls.map fun r => digits r.toNat := by
    intro rolls hne
    refine List.splitOn_intercalate '+' ?_ (by simpa using hne)
    exact List.forall_mem_map.mpr fun r _ => notMem_digits rfl r.toNat
  have hdigits := congrArg (List.splitOn '+') h
  rw [hsplit hne, hsplit hne'] at hdigits
  exact List.map_injective_iff.mpr (fun _ _ => digits_toNat_inj.mp) hdigits

/-- A capped chain tells its ends and its length. -/
theorem chars_capped_chain_inj {first second first' second' : UInt32} {rest rest' : List UInt32}
    (h : chars ⟨first :: second :: rest, true⟩ = chars ⟨first' :: second' :: rest', true⟩) :
    first = first' ∧ (second :: rest).getLastD first = (second' :: rest').getLastD first' ∧
      rest.length = rest'.length := by
  rw [chars_capped_chain, chars_capped_chain, List.cons.injEq] at h
  obtain ⟨hfirst, h⟩ := digits_append_inj ⟨'+', rfl, rfl⟩ h.2
  obtain ⟨hlast, h⟩ := digits_append_inj ⟨' ', rfl, rfl⟩ h
  obtain ⟨hlength, -⟩ := digits_append_inj ⟨' ', rfl, rfl⟩ h
  exact ⟨UInt32.toNat_inj.mp hfirst, UInt32.toNat_inj.mp hlast, Nat.add_right_cancel hlength⟩

theorem getLast?_cons_eq_getLastD (first : UInt32) (rest : List UInt32) :
    (first :: rest).getLast? = some (rest.getLastD first) := by
  rw [List.getLast?_cons, List.getLastD_eq_getLast?]

/-- What has one text is alike. -/
theorem alike_of_chars_eq {a b : RolledDie} (ha : a.rolls ≠ []) (hb : b.rolls ≠ [])
    (h : a.chars = b.chars) : a.Alike b := by
  -- two characters tell which of the four shapes the text has, so that both dice are of one shape
  have hcapped : a.capped = b.capped := by
    rw [Bool.eq_iff_iff, ← a.parenthesis_mem_chars_iff, h, b.parenthesis_mem_chars_iff]
  have hlong : 2 ≤ a.rolls.length ↔ 2 ≤ b.rolls.length := by
    rw [← a.plus_mem_chars_iff, h, b.plus_mem_chars_iff]
  match a, b with
  | ⟨[_], _⟩, ⟨_ :: _ :: _, _⟩ => simp at hlong
  | ⟨_ :: _ :: _, _⟩, ⟨[_], _⟩ => simp at hlong
  | ⟨[r], false⟩, ⟨[r'], false⟩ =>
    have hr : r = r' := digits_toNat_inj.mp h
    exact .of_eq (by rw [hr])
  | ⟨[r], true⟩, ⟨[r'], true⟩ =>
    have hr : r = r' := by simpa [chars, digits_toNat_inj] using h
    exact .of_eq (by rw [hr])
  | ⟨r :: s :: rest, false⟩, ⟨r' :: s' :: rest', false⟩ =>
    rw [chars_chain, chars_chain, List.cons.injEq] at h
    have hrolls : r :: s :: rest = r' :: s' :: rest' :=
      intercalate_digits_inj (List.cons_ne_nil _ _) (List.cons_ne_nil _ _)
        (List.append_cancel_right h.2)
    exact .of_eq (by rw [hrolls])
  | ⟨r :: s :: rest, true⟩, ⟨r' :: s' :: rest', true⟩ =>
    obtain ⟨hfirst, hlast, hlength⟩ := chars_capped_chain_inj h
    refine ⟨rfl, ?_, congrArg some hfirst, ?_, fun hshown => absurd ⟨rfl, ?_⟩ hshown⟩
    · simp [hlength]
    · rw [getLast?_cons_eq_getLastD, getLast?_cons_eq_getLastD, hlast]
    · simp

/-- What is alike has one text. -/
theorem Alike.chars_eq {a b : RolledDie} (h : a.Alike b) : a.chars = b.chars := by
  obtain ⟨hcapped, hlength, hfirst, hlast, hrolls⟩ := h
  by_cases hchain : a.capped = true ∧ 2 ≤ a.rolls.length
  · match a, b with
    | ⟨[], _⟩, _ => simp at hchain
    | ⟨[_], _⟩, _ => simp at hchain
    | ⟨_ :: _ :: _, _⟩, ⟨[], _⟩ => simp at hlength
    | ⟨_ :: _ :: _, _⟩, ⟨[_], _⟩ => simp at hlength
    | ⟨r :: s :: rest, true⟩, ⟨r' :: s' :: rest', true⟩ =>
      rw [getLast?_cons_eq_getLastD, getLast?_cons_eq_getLastD] at hlast
      obtain rfl := Option.some.inj hfirst
      have hrest : rest.length = rest'.length := by simpa using hlength
      rw [chars_capped_chain, chars_capped_chain, Option.some.inj hlast, hrest]
  · obtain ⟨rolls, capped⟩ := a
    obtain rfl : rolls = b.rolls := hrolls hchain
    obtain rfl : capped = b.capped := hcapped
    rfl

/-- **Dice have one text exactly when they are alike.** -/
theorem chars_eq_iff {a b : RolledDie} (ha : a.rolls ≠ []) (hb : b.rolls ≠ []) :
    a.chars = b.chars ↔ a.Alike b :=
  ⟨alike_of_chars_eq ha hb, Alike.chars_eq⟩

end RolledDie

/-! ## Texts that tell where they end -/

/-- The text of a number, or a text in brackets that holds no closing bracket inside. -/
inductive Delimited : List Char → Prop where
  | digits {ds : List Char} : Decimal.IsRun ds → Delimited ds
  | brackets {inside : List Char} : ']' ∉ inside → Delimited ('[' :: (inside ++ [']']))

/-- The text of a die is a number or stands in brackets. -/
theorem RolledDie.delimited_chars {die : RolledDie} (h : die.rolls ≠ []) :
    Delimited die.chars := by
  have hdigits : ∀ n, ']' ∉ Decimal.digits n := Decimal.notMem_digits rfl
  match die with
  | ⟨[r], false⟩ => exact .digits (Decimal.isRun_digits r.toNat)
  | ⟨[r], true⟩ =>
    have hchars : chars ⟨[r], true⟩ =
        '[' :: (Decimal.digits r.toNat ++ " (capped)".toList ++ [']']) := by simp [chars]
    rw [hchars]
    exact .brackets (by simp [hdigits])
  | ⟨r :: s :: rest, false⟩ =>
    rw [chars_chain]
    exact .brackets (by simp [intercalate_cons_eq_append, hdigits])
  | ⟨r :: s :: rest, true⟩ =>
    rw [chars_capped_chain]
    simp only [← List.append_assoc]
    exact .brackets (by simp [hdigits])

namespace Delimited

/-- A number begins with a digit. -/
theorem digits_append_ne {ds rest others : List Char} {c : Char} (h : Decimal.IsRun ds)
    (hc : c.isDigit = false) : ds ++ rest ≠ c :: others := by
  obtain ⟨d, tail, rfl⟩ := List.exists_cons_of_ne_nil h.1
  intro heq
  obtain ⟨rfl, -⟩ := List.cons.inj heq
  exact ne_true_of_eq_false hc (h.isDigit List.mem_cons_self)

/-- No delimited text begins with a closing bracket. -/
theorem append_ne {cs rest others : List Char} (h : Delimited cs) : cs ++ rest ≠ ']' :: others := by
  cases h with
  | digits hrun => exact digits_append_ne hrun rfl
  | brackets _ => exact fun heq => absurd (List.cons.inj heq).1 (by decide)

/-- A delimited text is cut off where it ends, if no digit follows. -/
theorem append_inj {cs ds rest others : List Char} (hcs : Delimited cs) (hds : Delimited ds)
    (hrest : ∀ c ∈ rest.head?, c.isDigit = false) (hothers : ∀ c ∈ others.head?, c.isDigit = false)
    (h : cs ++ rest = ds ++ others) : cs = ds ∧ rest = others := by
  cases hcs with
  | digits hrun =>
    cases hds with
    | digits hrun' =>
      exact Sequence.append_inj_of_forall (fun _ => hrun.isDigit) (fun _ => hrun'.isDigit) hrest
        hothers h
    | brackets _ => exact absurd h (digits_append_ne hrun rfl)
  | @brackets inside hinside =>
    cases hds with
    | digits hrun => exact absurd h.symm (digits_append_ne hrun rfl)
    | @brackets inside' hinside' =>
      have hclosed : inside ++ ']' :: rest = inside' ++ ']' :: others := by simpa using h
      obtain ⟨rfl, hrest⟩ := Sequence.append_cons_inj_of_notMem hinside hinside' hclosed
      exact ⟨rfl, hrest⟩

/-- What follows a part of a list is no digit: a comma, or the closing bracket. -/
theorem head_tail (parts : List (List Char)) :
    ∀ c ∈ (parts.flatMap (", ".toList ++ ·) ++ [']']).head?, c.isDigit = false := by
  intro c hc
  cases parts with
  | nil =>
    obtain rfl := Option.some.inj hc
    rfl
  | cons part parts =>
    obtain rfl := Option.some.inj hc
    rfl

theorem flatMap_inj {xs ys : List (List Char)} (hxs : ∀ x ∈ xs, Delimited x)
    (hys : ∀ y ∈ ys, Delimited y)
    (h : xs.flatMap (", ".toList ++ ·) ++ [']'] = ys.flatMap (", ".toList ++ ·) ++ [']']) :
    xs = ys := by
  induction xs generalizing ys with
  | nil =>
    cases ys with
    | nil => rfl
    | cons y ys => cases h
  | cons x xs ih =>
    cases ys with
    | nil => cases h
    | cons y ys =>
      obtain ⟨hx, hxs⟩ := List.forall_mem_cons.mp hxs
      obtain ⟨hy, hrest⟩ := List.forall_mem_cons.mp hys
      simp only [List.flatMap_cons, List.append_assoc] at h
      obtain ⟨rfl, htail⟩ :=
        hx.append_inj hy (head_tail xs) (head_tail ys) (List.append_cancel_left h)
      rw [ih hxs hrest htail]

/-- **A list of delimited texts is told by its text**, though a comma may stand inside a text. -/
theorem intercalate_inj {xs ys : List (List Char)} (hxs : ∀ x ∈ xs, Delimited x)
    (hys : ∀ y ∈ ys, Delimited y)
    (h : ", ".toList.intercalate xs ++ [']'] = ", ".toList.intercalate ys ++ [']']) : xs = ys := by
  cases xs with
  | nil =>
    cases ys with
    | nil => rfl
    | cons y ys =>
      rw [intercalate_cons_eq_append, List.append_assoc] at h
      exact absurd h.symm (hys y List.mem_cons_self).append_ne
  | cons x xs =>
    obtain ⟨hx, hxs⟩ := List.forall_mem_cons.mp hxs
    cases ys with
    | nil =>
      rw [intercalate_cons_eq_append, List.append_assoc] at h
      exact absurd h hx.append_ne
    | cons y ys =>
      obtain ⟨hy, hrest⟩ := List.forall_mem_cons.mp hys
      rw [intercalate_cons_eq_append, intercalate_cons_eq_append, List.append_assoc,
        List.append_assoc] at h
      obtain ⟨rfl, htail⟩ := hx.append_inj hy (head_tail xs) (head_tail ys) h
      rw [flatMap_inj hxs hrest htail]

end Delimited

/-! ## Lists of dice -/

theorem map_chars_eq_iff {dice others : List RolledDie} (h : ∀ die ∈ dice, die.rolls ≠ [])
    (h' : ∀ die ∈ others, die.rolls ≠ []) :
    dice.map RolledDie.chars = others.map RolledDie.chars ↔
      List.Forall₂ RolledDie.Alike dice others := by
  induction dice generalizing others with
  | nil => cases others <;> simp
  | cons die dice ih =>
    cases others with
    | nil => simp
    | cons other others =>
      obtain ⟨hdie, hdice⟩ := List.forall_mem_cons.mp h
      obtain ⟨hother, hothers⟩ := List.forall_mem_cons.mp h'
      rw [List.map_cons, List.map_cons, List.cons.injEq, RolledDie.chars_eq_iff hdie hother,
        ih hdice hothers, List.forall₂_cons]

/-- **The text of a list of dice tells the dice.** Lists of dice that have been rolled have one text
exactly when they are as long as each other and alike die by die: in the same place both dice are
capped or neither, they were rolled as often, their first and their last rolls agree, and unless
they are capped chains all their rolls do. -/
theorem diceChars_eq_iff {dice others : List RolledDie} (h : ∀ die ∈ dice, die.rolls ≠ [])
    (h' : ∀ die ∈ others, die.rolls ≠ []) :
    diceChars dice = diceChars others ↔ List.Forall₂ RolledDie.Alike dice others := by
  rw [← map_chars_eq_iff h h']
  constructor
  · intro htext
    refine Delimited.intercalate_inj ?_ ?_ ?_
    · exact List.forall_mem_map.mpr fun die hdie => RolledDie.delimited_chars (h die hdie)
    · exact List.forall_mem_map.mpr fun die hdie => RolledDie.delimited_chars (h' die hdie)
    · exact (List.cons.inj htext).2
  · intro hchars
    rw [diceChars, hchars, diceChars]

/-- Only the rolls between the ends of a capped chain are not told; a comma inside the chain is no
place between two dice. -/
theorem diceChars_eq_iff_capped :
    let dice : List RolledDie := [⟨[6, 2], false⟩, ⟨[6, 5, 6], true⟩, ⟨[4], false⟩]
    let others : List RolledDie := [⟨[6, 2], false⟩, ⟨[6, 6, 6], true⟩, ⟨[4], false⟩]
    String.ofList (diceChars dice) = "[[6+2], [6+…+6 (3 rolls, capped)], 4]" ∧
      diceChars dice = diceChars others ∧ List.Forall₂ RolledDie.Alike dice others := by
  intro dice others
  have htext : diceChars dice = diceChars others := by decide
  exact ⟨by decide, htext, (diceChars_eq_iff (by decide) (by decide)).mp htext⟩

end Tabletop
