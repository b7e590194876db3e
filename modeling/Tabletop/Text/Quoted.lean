import Tabletop.Text.Hexadecimal

/-!
# Quoted text

Text between double quotes, with escapes after backslashes.

* `Text.isInline` — the characters that may stand for themselves on a line.
* `Text.unescape?` — a text with its escapes replaced.
* `Text.quoted?` — reads a quoted text and what follows its closing quote.
-/

namespace Tabletop.Text

/-- Whether a character may stand for itself on a line: no control character but the tab. -/
def isInline (c : Char) : Bool :=
  c = '\t' || (0x20 ≤ c.toNat && c.toNat ≠ 0x7F)

/-- The character that another stands for after a backslash. -/
def escaped? : Char → Option Char
  | '"' => some '"'
  | '\\' => some '\\'
  | 'b' => some '\x08'
  | 'f' => some '\x0c'
  | 'n' => some '\n'
  | 'r' => some '\r'
  | 't' => some '\t'
  | _ => none

/-- Replaces the escapes of a text: one letter, or a code point of four or eight digits. Outside of
escapes only `allowed` characters may stand. -/
def unescape? (allowed : Char → Bool) : List Char → Option (List Char)
  | [] => some []
  | '\\' :: 'u' :: a :: b :: c :: d :: rest => do
    return (← Hexadecimal.char? [a, b, c, d]) :: (← unescape? allowed rest)
  | '\\' :: 'U' :: a :: b :: c :: d :: e :: f :: g :: h :: rest => do
    return (← Hexadecimal.char? [a, b, c, d, e, f, g, h]) :: (← unescape? allowed rest)
  | '\\' :: c :: rest => do return (← escaped? c) :: (← unescape? allowed rest)
  | c :: rest => do
    if c ≠ '\\' ∧ allowed c then return c :: (← unescape? allowed rest) else none

/-- Cuts a text at the first quote that is not escaped: what stands before it and after it. -/
def quotedBody? : List Char → Option (List Char × List Char)
  | [] => none
  | '"' :: rest => some ([], rest)
  | '\\' :: c :: rest =>
    (quotedBody? rest).map fun (body, rest) => ('\\' :: c :: body, rest)
  | c :: rest => (quotedBody? rest).map fun (body, rest) => (c :: body, rest)

/-- Reads a quoted text after its opening quote: the text and what follows the closing quote. -/
def quoted? (cs : List Char) : Option (List Char × List Char) := do
  let (body, rest) ← quotedBody? cs
  return (← unescape? isInline body, rest)

/-- A text without quotes and backslashes ends at the first quote. -/
theorem quotedBody?_append {body : List Char} (h : ∀ c ∈ body, c ≠ '"' ∧ c ≠ '\\')
    (rest : List Char) : quotedBody? (body ++ '"' :: rest) = some (body, rest) := by
  induction body with
  | nil => simp [quotedBody?]
  | cons c body ih =>
    obtain ⟨hc, hb⟩ := List.forall_mem_cons.mp h
    rw [List.cons_append, quotedBody?, ih hb, Option.map_some]
    · exact hc.1
    · exact fun _ _ h _ => hc.2 h

end Tabletop.Text
