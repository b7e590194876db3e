import Mathlib.Data.List.TakeWhile
import Tabletop.Json.Reader
import Tabletop.Json.Writer

/-!
# JSON texts are read back

A value without numbers that are not whole is read back from its text, written without blanks or
over several lines. The text is cut into tokens first, and these do not depend on the blanks.

* `Json.Printable` — the values that their text stands for.
* `Json.Token.Writes` — a text whose tokens are given, whatever follows it.
* `Json.tokens` — the tokens of a value.
* `Json.readValue_tokens` — a value is read from its tokens.
* `Json.read?_compact`, `Json.read?_pretty` — a value is read from its text.
-/

namespace Tabletop

/-! ## Digits without leading zeros -/

theorem Decimal.head?_digits_ne_zero {n : Nat} (h : n ≠ 0) : (digits n).head? ≠ some '0' := by
  induction n using Nat.strongRecOn with
  | _ n ih =>
    by_cases hten : n < 10
    · have hdigit : ∀ d : Nat, d < 10 → d ≠ 0 → Nat.digitChar d ≠ '0' := by decide
      rw [digits, Nat.toDigits_of_lt_base hten, List.head?_cons, ne_eq, Option.some.injEq]
      exact hdigit n hten h
    · -- the last digit is behind those of a tenth of the number
      have htenth := ih (n / 10) (by omega) (by omega)
      obtain ⟨c, cs, hcs⟩ := List.exists_cons_of_ne_nil (digits_ne_nil (n / 10))
      rw [hcs, List.head?_cons] at htenth
      rw [digits, Nat.toDigits_of_base_le (by decide) (by omega), ← digits, hcs]
      exact htenth

/-- The digits of a number are the whole part of a number. -/
theorem Decimal.isWhole_digits (n : Nat) : isWhole (digits n) = true := by
  by_cases h : n = 0
  · rw [h]
    rfl
  · have hhead := head?_digits_ne_zero h
    cases hd : digits n with
    | nil => exact absurd hd (digits_ne_nil n)
    | cons c cs =>
      rw [hd, List.head?_cons, ne_eq, Option.some.injEq] at hhead
      cases cs with
      | nil => rfl
      | cons d cs => exact bne_iff_ne.mpr hhead

namespace Json

/-! ## Printable values -/

mutual

/-- Whether the text of a value stands for it: there are only whole numbers of 64 bits in it, and
nothing that no JSON text holds. -/
def Printable : Json → Prop
  | .null => True
  | .bool _ => True
  | .int n => -9223372036854775808 ≤ n ∧ n < 18446744073709551616
  | .float _ => False
  | .str _ => True
  | .letter _ => False
  | .unpaired => False
  | .arr items => PrintableItems items
  | .obj fields => PrintableFields fields

/-- The same for each item. -/
def PrintableItems : List Json → Prop
  | [] => True
  | item :: rest => item.Printable ∧ PrintableItems rest

/-- The same for the value of each field. -/
def PrintableFields : List (String × Json) → Prop
  | [] => True
  | (_, value) :: rest => value.Printable ∧ PrintableFields rest

end

namespace Token

/-! ## Texts and their tokens -/

/-- Whether a character ends a word that stands in front of it. -/
def endsWord (c : Char) : Bool :=
  (ofMark? c).isSome || isSpace c || c = '"'

/-- A text in front of which a word ends. -/
def Bounds (rest : List Char) : Prop :=
  ∀ c ∈ rest.head?, endsWord c = true

/-- A text writes tokens when these are what it is cut into, whatever stands in front of it, and
whatever stands behind it that ends a word. -/
def Writes (cs : List Char) (ts : List Token) : Prop :=
  ∀ done rest, Bounds rest →
    scan done .between (cs ++ rest) = scan (ts.reverse ++ done) .between rest

theorem bounds_nil : Bounds [] := nofun

theorem bounds_cons {c : Char} (h : endsWord c = true) (cs : List Char) : Bounds (c :: cs) := by
  intro d hd
  rw [List.head?_cons, Option.mem_some_iff] at hd
  exact hd ▸ h

theorem writes_nil : Writes [] [] := fun _ _ _ => rfl

theorem Writes.append {cs ds : List Char} {ts us : List Token} (hcs : Writes cs ts)
    (hds : Writes ds us) (hbounds : ∀ rest, Bounds rest → Bounds (ds ++ rest)) :
    Writes (cs ++ ds) (ts ++ us) := by
  intro done rest hrest
  rw [List.append_assoc, hcs done _ (hbounds rest hrest), hds _ rest hrest, List.reverse_append,
    List.append_assoc]

theorem scan_between (done : List Token) (c : Char) (cs : List Char) :
    scan done .between (c :: cs) = scan (enter done c).1 (enter done c).2 cs := rfl

/-- A mark in front is a token of its own. -/
theorem Writes.mark {c : Char} {m : Token} {cs : List Char} {ts : List Token}
    (hc : ofMark? c = some m) (h : Writes cs ts) : Writes (c :: cs) (m :: ts) := by
  intro done rest hrest
  rw [List.cons_append, scan_between, enter, hc, h _ _ hrest, List.reverse_cons,
    List.append_assoc]
  rfl

/-- Blanks in front do not count. -/
theorem Writes.space {c : Char} {cs : List Char} {ts : List Token} (hc : ofMark? c = none)
    (hspace : isSpace c = true) (h : Writes cs ts) : Writes (c :: cs) ts := by
  intro done rest hrest
  rw [List.cons_append, scan_between, enter, hc]
  dsimp only
  rw [if_pos hspace]
  exact h done rest hrest

/-! ## Words -/

/-- Inside a word every character that does not end it belongs to it. -/
theorem scan_word (done : List Token) {cs : List Char} (hcs : ∀ c ∈ cs, endsWord c = false)
    (seen rest : List Char) :
    scan done (.word seen) (cs ++ rest) = scan done (.word (cs.reverse ++ seen)) rest := by
  induction cs generalizing seen with
  | nil => rfl
  | cons c cs ih =>
    obtain ⟨hc, hcs⟩ := List.forall_mem_cons.mp hcs
    rw [endsWord] at hc
    rw [List.cons_append, scan, step, if_neg (by simp [hc]), List.reverse_cons, List.append_assoc]
    exact ih hcs (c :: seen)

/-- A word writes its value. -/
theorem writes_word {cs : List Char} {value : Json} (hne : cs ≠ [])
    (hcs : ∀ c ∈ cs, endsWord c = false) (hvalue : word? cs = some value) :
    Writes cs [leaf value] := by
  intro done rest hrest
  obtain ⟨c, cs, rfl⟩ := List.exists_cons_of_ne_nil hne
  obtain ⟨hc, hcs⟩ := List.forall_mem_cons.mp hcs
  have hmark : ofMark? c = none := by
    rw [endsWord, Bool.or_eq_false_iff, Bool.or_eq_false_iff] at hc
    exact Option.isSome_eq_false_iff.mp hc.1.1 |> Option.isNone_iff_eq_none.mp
  have hspace : isSpace c = false := by
    rw [endsWord, Bool.or_eq_false_iff, Bool.or_eq_false_iff] at hc
    exact hc.1.2
  have hquote : c ≠ '"' := by
    rw [endsWord, Bool.or_eq_false_iff] at hc
    exact of_decide_eq_false hc.2
  have henter : enter done c = (done, .word [c]) := by
    rw [enter, hmark]
    simp [hspace, hquote]
  have hword : (cs.reverse ++ [c]).reverse = c :: cs := by
    rw [List.reverse_append, List.reverse_reverse, List.reverse_singleton, List.singleton_append]
  rw [List.cons_append, scan_between, henter, scan_word done hcs]
  -- the word ends with the text or in front of the next character
  cases rest with
  | nil =>
    rw [scan.eq_def]
    dsimp only
    rw [hword, hvalue]
    rfl
  | cons d rest =>
    have hd : endsWord d = true := hrest d rfl
    rw [endsWord] at hd
    rw [scan, step, if_pos hd, hword, hvalue]
    rfl

/-- A literal writes its value. -/
theorem writes_literal {c : Char} {cs : List Char} {value : Json}
    (hcs : (c :: cs).any endsWord = false) (hvalue : word? (c :: cs) = some value) :
    Writes (c :: cs) [leaf value] := by
  have hends : ∀ d ∈ c :: cs, endsWord d = false := fun d hd =>
    Bool.eq_false_iff.mpr (List.any_eq_false.mp hcs d hd)
  exact writes_word (List.cons_ne_nil c cs) hends hvalue

theorem ofMark?_of_isDigit {c : Char} (h : c.isDigit = true) : ofMark? c = none := by
  unfold ofMark?
  split <;> first | rfl | (revert h; decide)

/-- A digit does not end a word. -/
theorem endsWord_of_isDigit {c : Char} (h : c.isDigit = true) : endsWord c = false := by
  have hspace : isSpace c = false := by
    rw [Bool.eq_false_iff]
    intro hc
    simp only [isSpace, Bool.or_eq_true, decide_eq_true_eq] at hc
    rcases hc with ((rfl | rfl) | rfl) | rfl <;> cases h
  have hquote : c ≠ '"' := by
    rintro rfl
    cases h
  rw [endsWord, ofMark?_of_isDigit h, hspace, decide_eq_false hquote]
  rfl

/-- The digits of a natural number are a whole number. -/
theorem unsigned?_digits (negative : Bool) (n : Nat) :
    unsigned? negative (Decimal.digits n) = some (whole negative (Decimal.digits n)) := by
  have htake : (Decimal.digits n).takeWhile Char.isDigit = Decimal.digits n :=
    List.takeWhile_eq_self_iff.mpr fun _ hc => Decimal.isDigit_of_mem_digits hc
  have hdrop : (Decimal.digits n).dropWhile Char.isDigit = [] :=
    List.dropWhile_eq_nil_iff.mpr fun _ hc => Decimal.isDigit_of_mem_digits hc
  rw [unsigned?, htake, hdrop, if_pos (Decimal.isWhole_digits n), if_pos rfl]

/-- A whole number of 64 bits is read from its text. -/
theorem number?_integer {n : Int} (h : -9223372036854775808 ≤ n ∧ n < 18446744073709551616) :
    number? (Decimal.integer n) = some (.int n) := by
  have hsize : UInt64.size = 18446744073709551616 := rfl
  rw [Decimal.integer]
  split
  · have hnonzero : ¬ (n.natAbs = 0 ∨ UInt64.size / 2 < n.natAbs) := by omega
    rw [number?, unsigned?_digits, whole, Decimal.value_digits]
    simp only [if_true, if_neg hnonzero]
    rw [Option.some.injEq, int.injEq]
    omega
  · have hsmall : ¬ UInt64.size ≤ n.natAbs := by omega
    have hnumber : number? (Decimal.digits n.natAbs) =
        unsigned? false (Decimal.digits n.natAbs) := by
      -- no digit is a minus sign
      unfold number?
      split
      · next cs heq =>
        have hminus : '-'.isDigit = true :=
          Decimal.isDigit_of_mem_digits (heq ▸ List.mem_cons_self : '-' ∈ Decimal.digits n.natAbs)
        cases hminus
      · rfl
    rw [hnumber, unsigned?_digits, whole, Decimal.value_digits]
    simp only [Bool.false_eq_true, if_false, if_neg hsmall]
    rw [Option.some.injEq, int.injEq]
    omega

/-- The text of a whole number is no literal: it starts with a digit or a minus sign. -/
theorem integer_ne_literal (n : Int) {s : String} (hs : s ∈ ["null", "true", "false"]) :
    String.ofList (Decimal.integer n) ≠ s := by
  have hhead : ∀ c ∈ (Decimal.integer n).head?, c = '-' ∨ c.isDigit = true :=
    fun c hc => Decimal.mem_integer (List.mem_of_mem_head? hc)
  rintro rfl
  simp only [List.mem_cons, ← String.toList_inj, String.toList_ofList, List.not_mem_nil,
    or_false] at hs
  rcases hs with hs | hs | hs <;>
    · rw [hs] at hhead
      exact absurd (hhead _ rfl) (by decide)

theorem word?_integer {n : Int} (h : -9223372036854775808 ≤ n ∧ n < 18446744073709551616) :
    word? (Decimal.integer n) = some (.int n) := by
  unfold word?
  split
  · next heq => exact absurd heq (integer_ne_literal n (by simp))
  · next heq => exact absurd heq (integer_ne_literal n (by simp))
  · next heq => exact absurd heq (integer_ne_literal n (by simp))
  · exact number?_integer h

theorem writes_int {n : Int} (h : -9223372036854775808 ≤ n ∧ n < 18446744073709551616) :
    Writes (Decimal.integer n) [leaf (.int n)] := by
  refine writes_word ?_ ?_ (word?_integer h)
  · rw [Decimal.integer]
    split
    · exact List.cons_ne_nil _ _
    · exact Decimal.digits_ne_nil _
  · intro c hc
    rcases Decimal.mem_integer hc with rfl | hdigit
    · decide
    · exact endsWord_of_isDigit hdigit

/-! ## Strings -/

theorem charsOfAtoms?_char (c : Char) (rest : List Atom) :
    charsOfAtoms? (.char c :: rest) = (charsOfAtoms? rest).map (c :: ·) := by
  rw [charsOfAtoms?]

/-- A unit that is no surrogate stands for the character of its number. -/
theorem charsOfAtoms?_unit {u : Nat} (h : u < 0xD800) (rest : List Atom) :
    charsOfAtoms? (.unit u :: rest) = (charsOfAtoms? rest).map (Char.ofNat u :: ·) := by
  have hno : ¬ (0xD800 ≤ u ∧ u ≤ 0xDFFF) := fun hu => absurd h (Nat.not_lt.mpr hu.1)
  cases rest with
  | nil => simp only [charsOfAtoms?, if_neg hno, Option.map_some]
  | cons atom rest =>
    cases atom with
    | char c => simp only [charsOfAtoms?, if_neg hno, Option.map_map, Function.comp_def]
    | unit v => simp only [charsOfAtoms?, if_pos (Or.inl h : u < 0xD800 ∨ 0xDFFF < u)]

section Code

variable {c : Char} {digit : Nat} (h : Hexadecimal.value? c = some digit) {done : List Token}
  {seen : List Atom} {value : Nat} {cs : List Char}

include h

theorem scan_code_succ {left : Nat} : scan done (.code seen (left + 1) value) (c :: cs) =
    scan done (.code seen left (value * 16 + digit)) cs := by
  rw [scan, step, h]
  rfl

theorem scan_code_zero : scan done (.code seen 0 value) (c :: cs) =
    scan done (.string (.unit (value * 16 + digit) :: seen)) cs := by
  rw [scan, step, h]
  rfl

end Code

/-- The text of a character inside a string is read as one atom, which stands for it. -/
theorem exists_atom (c : Char) : ∃ atom,
    (∀ done seen cs, scan done (.string seen) (charText c ++ cs) =
      scan done (.string (atom :: seen)) cs) ∧
    ∀ rest, charsOfAtoms? (atom :: rest) = (charsOfAtoms? rest).map (c :: ·) := by
  unfold charText
  split
  iterate 7 exact ⟨.char _, fun _ _ _ => rfl, charsOfAtoms?_char _⟩
  next hquote hbackslash _ _ _ _ _ =>
    split
    · -- a control character without a letter of its own is written as the digits of its number
      next hcontrol =>
        refine ⟨.unit c.toNat, fun done seen cs => ?_, fun rest => ?_⟩
        · have hhigh := Hexadecimal.value?_digit (c.toNat / 16) (by omega)
          have hlow := Hexadecimal.value?_digit (c.toNat % 16) (by omega)
          have hnumber : (((0 * 16 + 0) * 16 + 0) * 16 + c.toNat / 16) * 16 + c.toNat % 16 =
              c.toNat := by omega
          have hzero : Hexadecimal.value? '0' = some 0 := rfl
          have hstart : ∀ ds, scan done (.string seen) ('\\' :: 'u' :: ds) =
              scan done (.code seen 3 0) ds := fun _ => rfl
          simp only [List.cons_append, List.nil_append]
          rw [hstart, scan_code_succ hzero, scan_code_succ hzero, scan_code_succ hhigh,
            scan_code_zero hlow, hnumber]
        · rw [charsOfAtoms?_unit (by omega), Char.ofNat_toNat]
    · next hcontrol =>
        refine ⟨.char c, fun done seen cs => ?_, charsOfAtoms?_char c⟩
        rw [List.singleton_append, scan, step, if_neg hquote, if_neg hbackslash, if_neg hcontrol]

/-- The characters of a string are read as atoms that stand for them. -/
theorem exists_atoms (s : List Char) : ∃ atoms,
    (∀ done seen cs, scan done (.string seen) (s.flatMap charText ++ cs) =
      scan done (.string (atoms.reverse ++ seen)) cs) ∧ charsOfAtoms? atoms = some s := by
  induction s with
  | nil => exact ⟨[], fun _ _ _ => rfl, rfl⟩
  | cons c s ih =>
    obtain ⟨atom, hatom, hchar⟩ := exists_atom c
    obtain ⟨atoms, hatoms, hchars⟩ := ih
    refine ⟨atom :: atoms, fun done seen cs => ?_, ?_⟩
    · rw [List.flatMap_cons, List.append_assoc, hatom, hatoms, List.reverse_cons,
        List.append_assoc]
      rfl
    · rw [hchar, hchars, Option.map_some]

/-- A string in its quotes writes the string. -/
theorem writes_quoted (s : String) : Writes (quoted s) [leaf (.str s)] := by
  intro done rest hrest
  obtain ⟨atoms, hatoms, hchars⟩ := exists_atoms s.toList
  have hstring : stringOfAtoms (atoms.reverse ++ []).reverse = .str s := by
    rw [List.append_nil, List.reverse_reverse, stringOfAtoms, hchars]
    dsimp only
    rw [String.ofList_toList]
  have henter : enter done '"' = (done, .string []) := rfl
  rw [quoted, List.cons_append, List.cons_append, scan_between, henter, List.append_assoc, hatoms,
    List.singleton_append, scan, step, if_pos rfl, hstring]
  rfl

end Token

/-! ## The tokens of a value -/

open Token

mutual

/-- The tokens of a value. -/
def tokens : Json → List Token
  | .arr items => .openArray :: itemTokens items
  | .obj fields => .openObject :: fieldTokens fields
  | value => [.leaf value]

/-- The tokens of the items of an array up to its closing bracket. -/
def itemTokens : List Json → List Token
  | [] => [.closeArray]
  | [item] => tokens item ++ [.closeArray]
  | item :: rest => tokens item ++ .comma :: itemTokens rest

/-- The tokens of the fields of an object up to its closing brace. -/
def fieldTokens : List (String × Json) → List Token
  | [] => [.closeObject]
  | [(name, value)] => .leaf (.str name) :: .colon :: (tokens value ++ [.closeObject])
  | (name, value) :: rest =>
    .leaf (.str name) :: .colon :: (tokens value ++ .comma :: fieldTokens rest)

end

theorem bounds_append {c : Char} (h : endsWord c = true) (cs rest : List Char) :
    Bounds (c :: cs ++ rest) :=
  bounds_cons h (cs ++ rest)

/-- A mark behind a text whose tokens are known. -/
theorem Token.Writes.append_mark {c : Char} {m : Token} {cs ds : List Char} {ts us : List Token}
    (hcs : Writes cs ts) (hc : ofMark? c = some m) (hds : Writes ds us) :
    Writes (cs ++ c :: ds) (ts ++ m :: us) := by
  refine hcs.append (hds.mark hc) fun rest _ => bounds_append ?_ ds rest
  rw [endsWord, hc]
  rfl

theorem writes_closeArray : Writes [']'] [.closeArray] := writes_nil.mark rfl

theorem writes_closeObject : Writes ['\x7d'] [.closeObject] := writes_nil.mark rfl

theorem writes_leafText {value : Json} (h : value.Printable) (harr : ∀ items, value ≠ .arr items)
    (hobj : ∀ fields, value ≠ .obj fields) : Writes (leafText value) [.leaf value] := by
  cases value with
  | null => exact writes_literal rfl rfl
  | bool b => cases b <;> exact writes_literal rfl rfl
  | int n => exact writes_int h
  | float text => exact h.elim
  | str s => exact writes_quoted s
  | letter c => exact h.elim
  | unpaired => exact h.elim
  | arr items => exact absurd rfl (harr items)
  | obj fields => exact absurd rfl (hobj fields)

mutual

/-- A value without blanks writes its tokens. -/
theorem writes_compactText : (value : Json) → value.Printable →
    Writes (compactText value) (tokens value)
  | .arr items, h => (writes_compactItems items h).mark rfl
  | .obj fields, h => (writes_compactFields fields h).mark rfl
  | .null, h => writes_leafText h nofun nofun
  | .bool _, h => writes_leafText h nofun nofun
  | .int _, h => writes_leafText h nofun nofun
  | .str _, h => writes_leafText h nofun nofun

theorem writes_compactItems : (items : List Json) → PrintableItems items →
    Writes (compactItems items) (itemTokens items)
  | [], _ => writes_closeArray
  | [item], h => (writes_compactText item h.1).append_mark rfl writes_nil
  | item :: next :: rest, h =>
    (writes_compactText item h.1).append_mark rfl (writes_compactItems (next :: rest) h.2)

theorem writes_compactFields : (fields : List (String × Json)) → PrintableFields fields →
    Writes (compactFields fields) (fieldTokens fields)
  | [], _ => writes_closeObject
  | [(name, value)], h => by
    have hvalue := (writes_compactText value h.1).append_mark (c := '\x7d') rfl writes_nil
    have hname := (writes_quoted name).append_mark (c := ':') rfl hvalue
    rw [compactFields, List.append_assoc]
    exact hname
  | (name, value) :: next :: rest, h => by
    have hrest := writes_compactFields (next :: rest) h.2
    have hvalue := (writes_compactText value h.1).append_mark (c := ',') rfl hrest
    have hname := (writes_quoted name).append_mark (c := ':') rfl hvalue
    rw [compactFields, List.append_assoc]
    · exact hname
    · exact nofun

end

/-- A new line in front does not count. -/
theorem Token.Writes.newLine {cs : List Char} {ts : List Token} (h : Writes cs ts) (level : Nat) :
    Writes (newLine level ++ cs) ts := by
  have hspaces : ∀ n, Writes (List.replicate n ' ' ++ cs) ts := by
    intro n
    induction n with
    | zero => exact h
    | succ n ih => exact ih.space rfl rfl
  exact (hspaces (2 * level)).space rfl rfl

/-- Nor does one between two texts. -/
theorem Token.Writes.append_newLine {cs ds : List Char} {ts us : List Token} (hcs : Writes cs ts)
    (hds : Writes ds us) (level : Nat) : Writes (cs ++ (Json.newLine level ++ ds)) (ts ++ us) :=
  hcs.append (hds.newLine level) fun rest _ => bounds_append rfl _ rest

/-- A colon and a blank behind a text whose tokens are known. -/
theorem Token.Writes.append_colon {cs ds : List Char} {ts us : List Token} (hcs : Writes cs ts)
    (hds : Writes ds us) : Writes (cs ++ (": ".toList ++ ds)) (ts ++ .colon :: us) :=
  hcs.append_mark (c := ':') rfl (hds.space (c := ' ') rfl rfl)

mutual

/-- A value over several lines writes its tokens. -/
theorem writes_prettyText (level : Nat) : (value : Json) → value.Printable →
    Writes (prettyText level value) (tokens value)
  | .arr [], _ => writes_closeArray.mark rfl
  | .arr (item :: rest), h => (writes_prettyItems level (item :: rest) h).mark rfl
  | .obj [], _ => writes_closeObject.mark rfl
  | .obj (field :: rest), h => (writes_prettyFields level (field :: rest) h).mark rfl
  | .null, h => writes_leafText h nofun nofun
  | .bool _, h => writes_leafText h nofun nofun
  | .int _, h => writes_leafText h nofun nofun
  | .str _, h => writes_leafText h nofun nofun

theorem writes_prettyItems (level : Nat) : (items : List Json) → PrintableItems items →
    Writes (prettyItems level items) (itemTokens items)
  | [], _ => writes_closeArray.newLine level
  | [item], h => by
    have hitem := (writes_prettyText (level + 1) item h.1).append_newLine writes_closeArray level
    rw [prettyItems, List.append_assoc, List.append_assoc]
    exact hitem.newLine (level + 1)
  | item :: next :: rest, h => by
    have hrest := writes_prettyItems level (next :: rest) h.2
    have hitem := (writes_prettyText (level + 1) item h.1).append_mark (c := ',') rfl hrest
    rw [prettyItems, List.append_assoc]
    · exact hitem.newLine (level + 1)
    · exact nofun

theorem writes_prettyFields (level : Nat) : (fields : List (String × Json)) →
    PrintableFields fields → Writes (prettyFields level fields) (fieldTokens fields)
  | [], _ => writes_closeObject.newLine level
  | [(name, value)], h => by
    have hvalue := (writes_prettyText (level + 1) value h.1).append_newLine writes_closeObject level
    have hname := (writes_quoted name).append_colon hvalue
    simp only [prettyFields, List.append_assoc]
    exact hname.newLine (level + 1)
  | (name, value) :: next :: rest, h => by
    have hrest := writes_prettyFields level (next :: rest) h.2
    have hvalue := (writes_prettyText (level + 1) value h.1).append_mark (c := ',') rfl hrest
    have hname := (writes_quoted name).append_colon hvalue
    rw [prettyFields]
    · simp only [List.append_assoc]
      exact hname.newLine (level + 1)
    · exact nofun

end

/-! ## Reading tokens -/

/-- The tokens of a value do not start with a closing bracket. -/
theorem exists_tokens_cons (value : Json) : ∃ t ts, tokens value = t :: ts ∧ t ≠ .closeArray := by
  cases value with
  | arr items => exact ⟨.openArray, _, rfl, nofun⟩
  | obj fields => exact ⟨.openObject, _, rfl, nofun⟩
  | _ => exact ⟨.leaf _, [], rfl, nofun⟩

theorem length_tokens_pos (value : Json) : 0 < (tokens value).length := by
  obtain ⟨t, ts, h, -⟩ := exists_tokens_cons value
  simp [h]

theorem itemTokens_cons (item next : Json) (rest : List Json) :
    itemTokens (item :: next :: rest) = tokens item ++ .comma :: itemTokens (next :: rest) := by
  rw [itemTokens]
  exact nofun

theorem fieldTokens_cons (name : String) (value : Json) (next : String × Json)
    (rest : List (String × Json)) : fieldTokens ((name, value) :: next :: rest) =
      .leaf (.str name) :: .colon :: (tokens value ++ .comma :: fieldTokens (next :: rest)) := by
  rw [fieldTokens]
  exact nofun

section Reading

variable {depth : Nat} {ts rest : List Token} {value : Json}

theorem readValue_openArray {t : Token} (ht : t ≠ .closeArray) :
    readValue (depth + 1) (.openArray :: t :: ts) =
      (readItems depth (t :: ts)).map fun (items, rest) => (.arr items, rest) := by
  cases t <;> first | exact absurd rfl ht | rfl

theorem readValue_openObject {name : Json} :
    readValue (depth + 1) (.openObject :: .leaf name :: ts) =
      (readFields depth (.leaf name :: ts)).map fun (fields, rest) => (ofFields fields, rest) := rfl

theorem readItems_close (h : readValue depth ts = some (value, .closeArray :: rest)) :
    readItems (depth + 1) ts = some ([value], rest) := by
  rw [readItems, h]

theorem readItems_comma (h : readValue depth ts = some (value, .comma :: rest)) :
    readItems (depth + 1) ts =
      (readItems depth rest).map fun (items, rest) => (value :: items, rest) := by
  rw [readItems, h]

theorem readFields_close {name : String}
    (h : readValue depth ts = some (value, .closeObject :: rest)) :
    readFields (depth + 1) (.leaf (.str name) :: .colon :: ts) =
      some ([(some name, value)], rest) := by
  simp only [readFields, fieldName?, h]

theorem readFields_comma {name : String}
    (h : readValue depth ts = some (value, .comma :: rest)) :
    readFields (depth + 1) (.leaf (.str name) :: .colon :: ts) =
      (readFields depth rest).map fun (fields, rest) => ((some name, value) :: fields, rest) := by
  simp only [readFields, fieldName?, h]

end Reading

mutual

/-- A value is read from its tokens, whatever follows them: each call reads a token at least, so
that as many calls as there are tokens may nest. -/
theorem readValue_tokens : (value : Json) → ∀ (depth : Nat) (rest : List Token),
    (tokens value).length ≤ depth → readValue depth (tokens value ++ rest) = some (value, rest)
  | .arr [], depth + 1, rest, _ => rfl
  | .arr (item :: items), depth + 1, rest, h => by
    have hitems := readItems_tokens item items depth rest (Nat.le_of_succ_le_succ h)
    obtain ⟨t, ts, hts, ht⟩ := exists_tokens_cons item
    obtain ⟨us, hus⟩ : ∃ us, itemTokens (item :: items) ++ rest = t :: us := by
      cases items with
      | nil => exact ⟨_, by rw [itemTokens, hts]; rfl⟩
      | cons next items => exact ⟨_, by rw [itemTokens_cons, hts]; rfl⟩
    rw [tokens, List.cons_append, hus, readValue_openArray ht, ← hus, hitems, Option.map_some]
  | .obj [], depth + 1, rest, _ => rfl
  | .obj ((name, value) :: fields), depth + 1, rest, h => by
    have hfields := readFields_tokens name value fields depth rest (Nat.le_of_succ_le_succ h)
    obtain ⟨us, hus⟩ : ∃ us, fieldTokens ((name, value) :: fields) ++ rest =
        .leaf (.str name) :: us := by
      cases fields with
      | nil => exact ⟨_, by rw [fieldTokens]; rfl⟩
      | cons next fields => exact ⟨_, by rw [fieldTokens_cons]; rfl⟩
    rw [tokens, List.cons_append, hus, readValue_openObject, ← hus, hfields, Option.map_some]
    dsimp only
    rw [ofFields_map]
  | .null, depth + 1, rest, _ => rfl
  | .bool _, depth + 1, rest, _ => rfl
  | .int _, depth + 1, rest, _ => rfl
  | .float _, depth + 1, rest, _ => rfl
  | .str _, depth + 1, rest, _ => rfl
  | .letter _, depth + 1, rest, _ => rfl
  | .unpaired, depth + 1, rest, _ => rfl
  | value, 0, _, h => absurd (length_tokens_pos value) (Nat.not_lt.mpr h)

theorem readItems_tokens : (item : Json) → (items : List Json) → ∀ (depth : Nat)
    (rest : List Token), (itemTokens (item :: items)).length ≤ depth →
    readItems depth (itemTokens (item :: items) ++ rest) = some (item :: items, rest)
  | item, [], depth + 1, rest, h => by
    rw [itemTokens, List.length_append, List.length_singleton] at h
    have hitem := readValue_tokens item depth (.closeArray :: rest) (by omega)
    rw [itemTokens, List.append_assoc]
    exact readItems_close hitem
  | item, next :: items, depth + 1, rest, h => by
    rw [itemTokens_cons, List.length_append, List.length_cons] at h
    have hitem := readValue_tokens item depth (.comma :: (itemTokens (next :: items) ++ rest))
      (by omega)
    have hitems := readItems_tokens next items depth rest (by omega)
    rw [itemTokens_cons, List.append_assoc, List.cons_append, readItems_comma hitem, hitems,
      Option.map_some]
  | item, items, 0, _, h => by
    cases items <;> simp [itemTokens] at h

theorem readFields_tokens : (name : String) → (value : Json) → (fields : List (String × Json)) →
    ∀ (depth : Nat) (rest : List Token), (fieldTokens ((name, value) :: fields)).length ≤ depth →
    readFields depth (fieldTokens ((name, value) :: fields) ++ rest) =
      some (((name, value) :: fields).map fun field => (some field.1, field.2), rest)
  | name, value, [], depth + 1, rest, h => by
    simp only [fieldTokens, List.length_cons, List.length_append] at h
    have hvalue := readValue_tokens value depth (.closeObject :: rest) (by omega)
    rw [fieldTokens, List.cons_append, List.cons_append, List.append_assoc]
    exact readFields_close hvalue
  | name, value, (next, nextValue) :: fields, depth + 1, rest, h => by
    simp only [fieldTokens_cons, List.length_cons, List.length_append] at h
    have hvalue := readValue_tokens value depth
      (.comma :: (fieldTokens ((next, nextValue) :: fields) ++ rest)) (by omega)
    have hfields := readFields_tokens next nextValue fields depth rest (by omega)
    rw [fieldTokens_cons, List.cons_append, List.cons_append, List.append_assoc, List.cons_append,
      readFields_comma hvalue, hfields]
    rfl
  | name, value, fields, 0, _, h => by
    cases fields <;> simp [fieldTokens] at h

end

/-! ## Texts -/

/-- A text that writes the tokens of a value is read as the value. -/
theorem read?_of_writes {text : String} {value : Json} (h : Writes text.toList (tokens value)) :
    read? text = some value := by
  have hscan := h [] [] bounds_nil
  rw [List.append_nil] at hscan
  have htokens : ofText? text.toList = some (tokens value) := by
    rw [ofText?, hscan, scan, List.append_nil, List.reverse_reverse]
  have hvalue := readValue_tokens value (2 * (tokens value).length + 2) [] (by omega)
  rw [List.append_nil] at hvalue
  simp only [read?, htokens, hvalue]

/-- A value without blanks is read back. -/
theorem read?_compact {value : Json} (h : value.Printable) : read? value.compact = some value := by
  refine read?_of_writes ?_
  rw [compact, String.toList_ofList]
  exact writes_compactText value h

/-- A value over several lines is read back. -/
theorem read?_pretty {value : Json} (h : value.Printable) : read? value.pretty = some value := by
  refine read?_of_writes ?_
  rw [pretty, String.toList_ofList]
  exact writes_prettyText 0 value h

end Json

end Tabletop
