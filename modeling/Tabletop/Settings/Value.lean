import Tabletop.Amount
import Tabletop.Fields
import Tabletop.Json.Basic
import Tabletop.Text.Blank
import Tabletop.Text.Quoted

/-!
# The value of a variable

What the text of a variable stands for.

* `Variable.quoted?` — a text in double quotes, with escapes.
* `Variable.word` — a number, or the text itself without the blanks around it.
* `Variable.plain?` — a truth value, a quoted text, a quoted character, or a word.
* `Variable.value` — any of them, or a list in brackets or a table in braces. A text that is not
  read to its end stands for itself, with the blanks around it.
-/

namespace Tabletop.Variable

/-- The blanks that may stand around values. -/
def isSpace (c : Char) : Bool :=
  c = ' ' || c = '\t' || c = '\n' || c = '\x0c' || c = '\r'

/-- A text without the blanks it starts with. -/
def skipSpace (cs : List Char) : List Char :=
  cs.dropWhile isSpace

/-- Whether a character belongs to the notation of lists and tables. -/
def isSeparator (c : Char) : Bool :=
  c = ',' || c = '[' || c = ']' || c = '\x7b' || c = '\x7d'

/-! ## Quoted texts -/

/-- The characters that take up the first `n` bytes of a text; none when those bytes end inside a
character. -/
def firstBytes? : Nat → List Char → Option (List Char)
  | 0, _ => some []
  | _ + 1, [] => some []
  | n + 1, c :: cs =>
    if c.utf8Size ≤ n + 1 then (firstBytes? (n + 1 - c.utf8Size) cs).map (c :: ·) else none

/-- Replaces the escapes of a text. Of the characters in front of the first escape only as many
bytes stand as there are characters, so that ASCII characters stand all. -/
def unescape? (cs : List Char) : Option (List Char) :=
  let plain := cs.takeWhile (· != '\\')
  match cs.dropWhile (· != '\\') with
  | [] => Text.unescape? Text.isInline plain
  | escapes => do
    if !plain.all Text.isInline then none
    return (← firstBytes? plain.length plain) ++ (← Text.unescape? Text.isInline escapes)

/-- Reads a quoted text after its opening quote: the text and what follows the closing quote. -/
def quoted? (cs : List Char) : Option (String × List Char) := do
  let (body, rest) ← Text.quotedBody? cs
  return (String.ofList (← unescape? body), rest)

/-- The characters of an ASCII text take up as many bytes as there are characters. -/
theorem firstBytes?_length {cs : List Char} (h : ∀ c ∈ cs, c.toNat < 128) :
    firstBytes? cs.length cs = some cs := by
  induction cs with
  | nil => rfl
  | cons c cs ih =>
    obtain ⟨hc, hcs⟩ := List.forall_mem_cons.mp h
    have hsize : c.utf8Size = 1 := by
      rw [Char.utf8Size_eq_one_iff, UInt32.le_iff_toNat_le]
      have hval : c.val.toNat = c.toNat := rfl
      have hlast : (127 : UInt32).toNat = 127 := rfl
      omega
    simp [firstBytes?, hsize, ih hcs]

/-! ## Values without parts -/

/-- The whole number of a text: up to 64 bits without a sign or after a plus, or a signed number of
64 bits. -/
def integer? (cs : List Char) : Option Int :=
  match Decimal.integer? cs with
  | some n =>
    if cs.head? = some '-' then if Amount.least ≤ n then some n else none
    else if n.toNat < UInt64.size then some n
    else none
  | none => none

/-- Whether a text is a number with a point; digits have to stand on one side of it. -/
def isPointed (cs : List Char) : Bool :=
  let body := (Decimal.splitSign cs).2
  let whole := body.takeWhile Char.isDigit
  match body.dropWhile Char.isDigit with
  | '.' :: rest =>
    let fraction := rest.takeWhile Char.isDigit
    (whole != [] || fraction != []) && Decimal.isExponent (rest.dropWhile Char.isDigit)
  | _ => false

/-- The value of a word: a number, or its text. -/
def word (cs : List Char) : Json :=
  if isPointed cs then .float (String.ofList cs)
  else
    match integer? cs with
    | some n => .int n
    | none => .str (String.ofList cs)

/-- Reads a value that has no parts. A truth value ends where its letters end; a word goes on to
the next separator. -/
def plain? : List Char → Option (Json × List Char)
  | 't' :: 'r' :: 'u' :: 'e' :: rest => some (.bool true, rest)
  | 'f' :: 'a' :: 'l' :: 's' :: 'e' :: rest => some (.bool false, rest)
  | '"' :: rest => (quoted? rest).map fun (text, rest) => (.str text, rest)
  | '\'' :: c :: '\'' :: rest => some (.letter c, rest)
  | '\'' :: _ => none
  | cs =>
    let inWord := fun c => !isSeparator c
    some (word (Text.trim (cs.takeWhile inWord)), cs.dropWhile inWord)

/-! ## Lists and tables -/

/-- The characters of a key without quotes. -/
def isKeyChar (c : Char) : Bool :=
  c.isAlphanum || c = '_' || c = '-'

/-- Reads the key of a table. -/
def key? (cs : List Char) : Option (String × List Char) :=
  match cs with
  | '"' :: rest => quoted? rest
  | cs =>
    let name := cs.takeWhile isKeyChar
    if name = [] then none else some (String.ofList name, cs.dropWhile isKeyChar)

/-- The table of some fields; of those with the same key the last one stands. -/
def tableOf (fields : List (String × Json)) : Json :=
  .obj (fields.foldl (fun table (name, value) => Fields.set name value table) [])

mutual

/-- Reads a value and the blanks around it. Each call is given how many more it may make in a
chain. -/
def valueOf? : Nat → List Char → Option (Json × List Char)
  | 0, _ => none
  | calls + 1, cs =>
    match skipSpace cs with
    | '[' :: rest =>
      (itemsOf? calls rest).map fun (items, rest) => (.arr items, skipSpace rest)
    | '\x7b' :: rest =>
      (fieldsOf? calls rest).map fun (fields, rest) => (tableOf fields, skipSpace rest)
    | rest => (plain? rest).map fun (value, rest) => (value, skipSpace rest)

/-- Reads the items of a list and its closing bracket; a comma may stand right before it. -/
def itemsOf? : Nat → List Char → Option (List Json × List Char)
  | 0, _ => none
  | calls + 1, cs =>
    match cs with
    | ']' :: rest => some ([], rest)
    | cs => do
      let (item, rest) ← valueOf? calls cs
      match rest with
      | ',' :: rest =>
        let (items, rest) ← itemsOf? calls rest
        return (item :: items, rest)
      | ']' :: rest => return ([item], rest)
      | _ => none

/-- Reads the fields of a table and its closing brace; a comma may stand right before it. -/
def fieldsOf? : Nat → List Char → Option (List (String × Json) × List Char)
  | 0, _ => none
  | calls + 1, cs =>
    match cs with
    | '\x7d' :: rest => some ([], rest)
    | cs => do
      let (name, rest) ← key? (skipSpace cs)
      match skipSpace rest with
      | '=' :: rest =>
        let (value, rest) ← valueOf? calls rest
        match rest with
        | ',' :: rest =>
          let (fields, rest) ← fieldsOf? calls rest
          return ((name, value) :: fields, rest)
        | '\x7d' :: rest => return ([(name, value)], rest)
        | _ => none
      | _ => none

end

/-- What the text of a variable stands for. Two calls in a chain read at least one character. -/
def value (text : String) : Json :=
  match valueOf? (2 * text.toList.length + 2) text.toList with
  | some (value, []) => value
  | _ => .str text

end Tabletop.Variable
