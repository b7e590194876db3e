import Tabletop.Proofs.Formula.Grammar
import Tabletop.Proofs.Sequence

/-!
# Reading finds the spelling

A text is read in two ways: it is cut at its signs to see whether it is of a formula's form, and it
is scanned from the left for its pieces. Both agree with the spelling of the text.

* `Formula.accepts_iff` — the form is accepted exactly when the text has a spelling.
* `Formula.scan_of_spelling` — the scan gives back the spelling, nothing skipped, since a piece ends
  where the next sign stands.
* `Spelling.unique` — a text has at most one spelling.
-/

namespace Tabletop

/-! ## Characters of a body -/

theorem Sign.ofSymbol?_of_isDigit {c : Char} (h : c.isDigit = true) : ofSymbol? c = none := by
  rw [Option.eq_none_iff_forall_ne_some]
  intro s hs
  rw [ofSymbol?_eq_some_iff.mp hs] at h
  cases s <;> exact absurd h (by decide)

theorem Decimal.IsRun.isDigit {cs : List Char} (h : IsRun cs) {c : Char} (hc : c ∈ cs) :
    c.isDigit = true :=
  List.all_eq_true.mp h.2 c hc

/-- A run of digits is read as the number it stands for. -/
theorem Decimal.IsRun.natural? {cs : List Char} (h : IsRun cs) :
    Decimal.natural? cs = some (value cs) :=
  natural?_eq_some_iff.mpr ⟨h, rfl⟩

theorem Decimal.isRun_digits (n : Nat) : IsRun (digits n) :=
  ⟨digits_ne_nil n, all_isDigit_digits n⟩

namespace Body

/-- A body is written with digits and the letter `d`. -/
theorem Spelled.mem {b : Body} {cs : List Char} (h : b.Spelled cs) {c : Char} (hc : c ∈ cs) :
    c.isDigit = true ∨ c = 'd' := by
  cases h with
  | constant hds => exact .inl (hds.isDigit hc)
  | single hds =>
    rcases List.mem_cons.mp hc with rfl | hc
    · exact .inr rfl
    · exact .inl (hds.isDigit hc)
  | counted hcs hds =>
    rcases List.mem_append.mp hc with hc | hc
    · exact .inl (hcs.isDigit hc)
    · rcases List.mem_cons.mp hc with rfl | hc
      · exact .inr rfl
      · exact .inl (hds.isDigit hc)

theorem Spelled.ne_nil {b : Body} {cs : List Char} (h : b.Spelled cs) : cs ≠ [] := by
  cases h with
  | constant hds => exact hds.1
  | single hds => exact List.cons_ne_nil _ _
  | counted hcs hds => exact List.append_ne_nil_of_left_ne_nil hcs.1 _

/-- No sign stands inside a body. -/
theorem Spelled.no_sign {b : Body} {cs : List Char} (h : b.Spelled cs) :
    ∀ c ∈ cs, Sign.ofSymbol? c = none := by
  intro c hc
  rcases h.mem hc with hd | rfl
  · exact Sign.ofSymbol?_of_isDigit hd
  · rfl

/-! ## The form of a body -/

theorem Spelled.accepts {b : Body} {cs : List Char} (h : b.Spelled cs) :
    Body.accepts cs = true := by
  have haccepts : ∀ (cs : List Char) {ds : List Char}, (∀ c ∈ cs, c.isDigit = true) →
      Decimal.IsRun ds → Body.accepts (cs ++ 'd' :: ds) = true := by
    intro cs ds hcs hds
    have hdrop := (Sequence.span_append ('d' :: ds) hcs (by simp)).2
    rw [Body.accepts, hdrop]
    simp [hds.1, hds.2]
  cases h with
  | constant hds =>
    have hdrop := (Sequence.span_append [] (fun c hc => hds.isDigit hc) nofun).2
    rw [List.append_nil] at hdrop
    rw [Body.accepts, hdrop]
    simp [hds.1]
  | single hds => exact haccepts [] nofun hds
  | counted hcs hds => exact haccepts _ (fun c hc => hcs.isDigit hc) hds

/-- What is accepted is written by some body. -/
theorem exists_spelled_of_accepts {cs : List Char} (h : Body.accepts cs = true) :
    ∃ b : Body, b.Spelled cs := by
  -- the text is its leading digits and what follows them
  have hsplit := cs.takeWhile_append_dropWhile (p := Char.isDigit)
  have hdigits : (cs.takeWhile Char.isDigit).all Char.isDigit = true := List.all_takeWhile
  rw [Body.accepts] at h
  split at h
  · next hdrop =>
    rw [hdrop, List.append_nil] at hsplit
    rw [hsplit] at hdigits
    exact ⟨_, .constant ⟨by simpa using h, hdigits⟩⟩
  · next sides hdrop =>
    rw [hdrop] at hsplit
    rw [Bool.and_eq_true] at h
    have hsides : Decimal.IsRun sides := ⟨by simpa using h.1, h.2⟩
    rw [← hsplit]
    rcases eq_or_ne (cs.takeWhile Char.isDigit) [] with hnil | hne
    · rw [hnil]
      exact ⟨_, .single hsides⟩
    · exact ⟨_, .counted ⟨hne, hdigits⟩ hsides⟩
  · cases h

/-! ## Scanning for one body -/

section Scanning

-- a body ends with the text or in front of a sign
variable {rest : List Char} (hrest : ∀ c ∈ rest.head?, ∃ s : Sign, c = s.symbol)

include hrest

theorem not_isDigit_head : ∀ c ∈ rest.head?, c.isDigit = false := by
  intro c hc
  obtain ⟨s, rfl⟩ := hrest c hc
  cases s <;> rfl

theorem dice?_append {ds : List Char} (cs : List Char) (hcs : ∀ c ∈ cs, c.isDigit = true)
    (hds : Decimal.IsRun ds) : dice? (cs ++ 'd' :: (ds ++ rest)) =
      some (.dice (Decimal.natural? cs) (Decimal.value ds), cs ++ 'd' :: ds) := by
  obtain ⟨htake, hdrop⟩ := Sequence.span_append ('d' :: (ds ++ rest)) hcs (by simp)
  have hsides := (Sequence.span_append rest (fun c hc => hds.isDigit hc) (not_isDigit_head hrest)).1
  simp only [dice?, htake, hdrop, hsides, hds.natural?, Option.map_some]

theorem dice?_digits {ds : List Char} (hds : Decimal.IsRun ds) : dice? (ds ++ rest) = none := by
  have hdrop := (Sequence.span_append rest (fun c hc => hds.isDigit hc) (not_isDigit_head hrest)).2
  rw [dice?, hdrop]
  cases rest with
  | nil => rfl
  | cons c rest =>
    obtain ⟨s, rfl⟩ := hrest c rfl
    cases s <;> rfl

/-- A body is found in front of the next sign, whole. -/
theorem Spelled.front? {b : Body} {cs : List Char} (h : b.Spelled cs) :
    Body.front? (cs ++ rest) = some (b, cs) := by
  cases h with
  | constant hds =>
    -- without a `d` behind the digits there are no dice, and the second alternative is taken
    have htake :=
      (Sequence.span_append rest (fun c hc => hds.isDigit hc) (not_isDigit_head hrest)).1
    simp only [Body.front?, dice?_digits hrest hds, constant?, htake, hds.natural?,
      Option.map_some, Option.none_or]
  | @single ds hds =>
    have hdice := dice?_append hrest [] nofun hds
    rw [List.nil_append] at hdice
    rw [Body.front?, List.cons_append, hdice]
    rfl
  | @counted cs ds hcs hds =>
    have hdice := dice?_append hrest cs (fun c hc => hcs.isDigit hc) hds
    rw [Body.front?, List.append_assoc, List.cons_append, hdice, hcs.natural?]
    rfl

end Scanning

end Body

/-! ## Cutting -/

namespace Piece

theorem cut_append_of_no_sign {body : List Char} (h : ∀ c ∈ body, Sign.ofSymbol? c = none)
    (cs : List Char) : cut (body ++ cs) = (body ++ (cut cs).1, (cut cs).2) := by
  induction body with
  | nil => rfl
  | cons c body ih =>
    obtain ⟨hc, hbody⟩ := List.forall_mem_cons.mp h
    rw [List.cons_append, cut, ih hbody, hc]
    rfl

theorem cut_symbol (s : Sign) (cs : List Char) :
    cut (s.symbol :: cs) = ([], (s, (cut cs).1) :: (cut cs).2) := by
  rw [cut, Sign.ofSymbol?_symbol]

/-- Pieces that all follow a sign are cut apart again, and nothing stands in front of them. -/
theorem cut_flatMap_source {pieces : List Piece} (hleads : ∀ p ∈ pieces, p.lead ≠ none)
    (hbodies : ∀ p ∈ pieces, ∀ c ∈ p.body, Sign.ofSymbol? c = none) :
    (cut (pieces.flatMap source)).1 = [] ∧
      (cut (pieces.flatMap source)).2.map (fun (s, body) => (⟨some s, body⟩ : Piece)) = pieces := by
  induction pieces with
  | nil => exact ⟨rfl, rfl⟩
  | cons p pieces ih =>
    obtain ⟨hlead, hleads⟩ := List.forall_mem_cons.mp hleads
    obtain ⟨hbody, hbodies⟩ := List.forall_mem_cons.mp hbodies
    obtain ⟨hfst, hsnd⟩ := ih hleads hbodies
    obtain ⟨lead, body⟩ := p
    obtain ⟨s, rfl⟩ := Option.ne_none_iff_exists'.mp hlead
    have hcut : cut (source ⟨some s, body⟩ ++ pieces.flatMap source) =
        ([], (s, body) :: (cut (pieces.flatMap source)).2) := by
      rw [source, List.cons_append, cut_symbol, cut_append_of_no_sign hbody, hfst, List.append_nil]
    rw [List.flatMap_cons, hcut, List.map_cons, hsnd]
    exact ⟨rfl, rfl⟩

/-- **The cut is unique**: pieces of which all but the first follow a sign, and none holds one, are
the pieces of their text. -/
theorem ofChars_flatMap_source {first : Piece} {rest : List Piece} (hfirst : first.lead = none)
    (hleads : ∀ p ∈ rest, p.lead ≠ none)
    (hbodies : ∀ p ∈ first :: rest, ∀ c ∈ p.body, Sign.ofSymbol? c = none) :
    ofChars ((first :: rest).flatMap source) = first :: rest := by
  obtain ⟨hbody, hbodies⟩ := List.forall_mem_cons.mp hbodies
  obtain ⟨hfst, hsnd⟩ := cut_flatMap_source hleads hbodies
  obtain ⟨lead, body⟩ := first
  obtain rfl : lead = none := hfirst
  have hcut : cut (source ⟨none, body⟩ ++ rest.flatMap source) =
      (body, (cut (rest.flatMap source)).2) := by
    rw [source, cut_append_of_no_sign hbody, hfst, List.append_nil]
  rw [List.flatMap_cons, ofChars, hcut]
  exact congrArg (⟨none, body⟩ :: ·) hsnd

end Piece

/-! ## Scanning a text -/

namespace Formula

section Scanning

variable {part : Piece × Body}

/-- Characters that are skipped are as good as absent. -/
theorem scanFrom_length (cs rest : List Char) : scanFrom cs.length (cs ++ rest) = scan rest := by
  induction cs with
  | nil => rfl
  | cons c cs ih => exact ih

theorem front?_source_append (h : part.2.Spelled part.1.body) {rest : List Char}
    (hrest : ∀ c ∈ rest.head?, ∃ s : Sign, c = s.symbol) :
    Piece.front? (part.1.source ++ rest) = some part := by
  obtain ⟨⟨lead, body⟩, b⟩ := part
  have hfront : Body.front? (body ++ rest) = some (b, body) := h.front? hrest
  cases lead with
  | some s =>
    rw [Piece.source, List.cons_append, Piece.front?, Sign.ofSymbol?_symbol]
    dsimp only
    rw [hfront]
    rfl
  | none =>
    obtain ⟨c, tail, rfl⟩ := List.exists_cons_of_ne_nil h.ne_nil
    have hc : Sign.ofSymbol? c = none := h.no_sign c List.mem_cons_self
    rw [List.cons_append] at hfront
    rw [Piece.source, List.cons_append, Piece.front?, hc]
    dsimp only
    rw [hfront]
    rfl

/-- The piece in front is found, and the scan goes on right behind it. -/
theorem scan_source_append (h : part.2.Spelled part.1.body) {rest : List Char}
    (hrest : ∀ c ∈ rest.head?, ∃ s : Sign, c = s.symbol) :
    scan (part.1.source ++ rest) = part :: scan rest := by
  have hfront := front?_source_append h hrest
  cases hsource : part.1.source with
  | nil =>
    rw [Piece.source] at hsource
    split at hsource
    · cases hsource
    · exact absurd hsource h.ne_nil
  | cons c tail =>
    -- the first character is used up by the step, the others of the piece are still to skip
    rw [hsource, List.cons_append] at hfront
    rw [scan, List.cons_append, scanFrom, hfront]
    dsimp only
    rw [hsource, List.length_cons, Nat.add_sub_cancel, scanFrom_length]

theorem scan_flatMap_source {rest : List (Piece × Body)}
    (hleads : ∀ part ∈ rest, part.1.lead ≠ none)
    (hspelled : ∀ other ∈ part :: rest, other.2.Spelled other.1.body) :
    scan ((part :: rest).flatMap (·.1.source)) = part :: rest := by
  induction rest generalizing part with
  | nil =>
    have hnil : ∀ c ∈ ([] : List Char).head?, ∃ s : Sign, c = s.symbol := nofun
    rw [List.flatMap_cons, List.flatMap_nil,
      scan_source_append (hspelled part List.mem_cons_self) hnil]
    rfl
  | cons next rest ih =>
    obtain ⟨hlead, hleads⟩ := List.forall_mem_cons.mp hleads
    obtain ⟨hpart, hspelled⟩ := List.forall_mem_cons.mp hspelled
    obtain ⟨s, hs⟩ := Option.ne_none_iff_exists'.mp hlead
    -- the sign of the next piece is what ends this one
    have hsign : ∀ c ∈ ((next :: rest).flatMap (·.1.source)).head?, ∃ s : Sign, c = s.symbol := by
      intro c hc
      rw [List.flatMap_cons, Piece.source, hs] at hc
      exact ⟨s, (Option.some.inj hc).symm⟩
    rw [List.flatMap_cons, scan_source_append hpart hsign, ih hleads hspelled]

end Scanning

/-- **The scan finds the spelling.** -/
theorem scan_of_spelling {cs : List Char} {parts : List (Piece × Body)} (h : Spelling cs parts) :
    scan cs = parts := by
  obtain ⟨⟨first, rest, rfl, -, hleads⟩, hspelled, rfl⟩ := h
  exact scan_flatMap_source hleads hspelled

/-- **The texts of a formula's form are those that have a spelling.** -/
theorem accepts_iff {cs : List Char} : accepts cs = true ↔ ∃ parts, Spelling cs parts := by
  constructor
  · -- the pieces that the cut finds make up the spelling, each with a body that it writes
    intro h
    rw [accepts, List.all_eq_true] at h
    obtain ⟨parts, hpieces, hspelled⟩ := Sequence.exists_pairs
      (R := fun (p : Piece) (b : Body) => b.Spelled p.body)
      fun p hp => Body.exists_spelled_of_accepts (h p hp)
    refine ⟨parts, ?_, hspelled, ?_⟩
    · obtain ⟨first, rest, rfl, hfirst, hrest⟩ := List.map_eq_cons_iff.mp hpieces
      refine ⟨first, rest, rfl, by rw [hfirst], ?_⟩
      intro part hpart
      have hmem : part.1 ∈ rest.map Prod.fst := List.mem_map_of_mem hpart
      rw [hrest] at hmem
      obtain ⟨tail, -, htail⟩ := List.mem_map.mp hmem
      rw [← htail]
      exact Option.some_ne_none tail.1
    · rw [← Piece.flatMap_source_ofChars cs, ← hpieces, List.flatMap_map]
  · -- no body holds a sign, so that the cut takes the pieces apart again
    rintro ⟨parts, ⟨first, rest, rfl, hfirst, hleads⟩, hspelled, rfl⟩
    have hcut : Piece.ofChars ((first :: rest).flatMap (·.1.source)) =
        (first :: rest).map Prod.fst := by
      rw [← List.flatMap_map, List.map_cons]
      refine Piece.ofChars_flatMap_source hfirst ?_ ?_
      · exact List.forall_mem_map.mpr hleads
      · rw [← List.map_cons]
        exact List.forall_mem_map.mpr fun part hpart => (hspelled part hpart).no_sign
    rw [accepts, hcut, List.all_eq_true]
    exact List.forall_mem_map.mpr fun part hpart => (hspelled part hpart).accepts

end Formula

/-- A text has at most one spelling. -/
theorem Spelling.unique {cs : List Char} {parts others : List (Piece × Body)}
    (h : Spelling cs parts) (h' : Spelling cs others) : others = parts :=
  (Formula.scan_of_spelling h').symm.trans (Formula.scan_of_spelling h)

end Tabletop
