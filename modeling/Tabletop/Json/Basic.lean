/-!
# JSON values

The values that a JSON text stands for.

* `Json` — fields keep their order and may repeat; whole numbers of 64 bits are told apart from all
  other numbers.
-/

namespace Tabletop

/-- A JSON value. -/
inductive Json where
  | null
  | bool (value : Bool)
  /-- a whole number between -2^63 and 2^64 - 1 -/
  | int (value : Int)
  /-- any other number, as it is written -/
  | float (text : String)
  | str (text : String)
  /-- a single character that is told apart from a string; no JSON text holds one -/
  | letter (c : Char)
  /-- a string that names no text, because an escaped surrogate in it is not paired; or an object
  with such a name among its own -/
  | unpaired
  | arr (items : List Json)
  | obj (fields : List (String × Json))
  deriving Repr, Inhabited

end Tabletop
