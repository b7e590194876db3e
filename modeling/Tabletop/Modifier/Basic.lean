import Tabletop.Amount
import Tabletop.Text.Blank

/-!
# Modifiers

Named additions to a roll, such as `Strength=3` or `Bless=1d4`.

* `Modifier` — a name and a value, which is an amount or the text of a dice expression.
* `Modifier.read` — reads `NAME=VALUE`. The name ends at the first equals sign, both parts lose
  the blanks at their ends, and a value that is no amount is a dice expression.
-/

namespace Tabletop

/-- The value of a modifier. -/
inductive ModifierValue where
  /-- a whole number -/
  | integer (amount : Amount)
  /-- the text of a dice expression -/
  | dice (expression : String)
  deriving DecidableEq, Repr

/-- The text of a value: a number with its sign, an expression as it is. -/
def ModifierValue.text : ModifierValue → String
  | integer amount => amount.signedText
  | dice expression => expression

/-- A named modifier. -/
structure Modifier where
  name : String
  value : ModifierValue
  deriving DecidableEq, Repr

/-- Why a text is not read as a modifier. -/
inductive ModifierError where
  | noEqualsSign (text : String)
  | noName (text : String)
  | noValue (text : String)
  deriving DecidableEq, Repr

/-- The wording of a modifier error. -/
def ModifierError.message : ModifierError → String
  | noEqualsSign text => "Expected NAME=VALUE, got '" ++ text ++ "'"
  | noName text => "Missing modifier name in '" ++ text ++ "'"
  | noValue text => "Missing modifier value in '" ++ text ++ "'"

namespace Modifier

/-- Cuts a text at its first equals sign. -/
def cut : List Char → Option (List Char × List Char)
  | [] => none
  | c :: cs =>
    if c = '=' then some ([], cs)
    else (cut cs).map fun (name, value) => (c :: name, value)

/-- The value of a trimmed text: an amount if it is one, otherwise a dice expression. -/
def readValue (cs : List Char) : ModifierValue :=
  match Amount.read? cs with
  | some amount => .integer amount
  | none => .dice (String.ofList cs)

/-- Reads `NAME=VALUE`. -/
def read (text : String) : Except ModifierError Modifier :=
  match cut text.toList with
  | none => .error (.noEqualsSign text)
  | some (name, value) =>
    if Text.trim name = [] then .error (.noName text)
    else if Text.trim value = [] then .error (.noValue text)
    else .ok ⟨String.ofList (Text.trim name), readValue (Text.trim value)⟩

/-- Writes `NAME=VALUE`. -/
def text (m : Modifier) : String :=
  m.name ++ "=" ++ m.value.text

/-- The cut is at the first equals sign. -/
theorem cut_eq_some_iff {cs name value : List Char} :
    cut cs = some (name, value) ↔ cs = name ++ '=' :: value ∧ '=' ∉ name := by
  induction cs generalizing name with
  | nil => simp [cut]
  | cons c cs ih =>
    by_cases h : c = '='
    · subst h
      cases name with
      | nil => simp [cut]
      | cons d ds => simp +contextual [cut, eq_comm]
    · cases name with
      | nil => simp [cut, h]
      | cons d ds =>
        simp only [cut, h, if_false, Option.map_eq_some_iff, Prod.exists, Prod.mk.injEq,
          List.cons.injEq, List.cons_append, List.mem_cons, not_or]
        constructor
        · rintro ⟨name, value, hcut, ⟨rfl, rfl⟩, rfl⟩
          exact ⟨⟨rfl, (ih.mp hcut).1⟩, Ne.symm h, (ih.mp hcut).2⟩
        · rintro ⟨⟨rfl, hcs⟩, -, hname⟩
          exact ⟨ds, value, ih.mpr ⟨hcs, hname⟩, ⟨rfl, rfl⟩, rfl⟩

end Modifier

end Tabletop
