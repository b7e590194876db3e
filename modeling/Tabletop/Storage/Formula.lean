import Tabletop.Formula.Reading
import Tabletop.Json.Form

/-!
# JSON form of formulas

Signs, bounds policies, terms and formulas as JSON. A formula without terms can be read.
-/

namespace Tabletop

open Json

instance : JsonForm Sign where
  write
    | .plus => .str "plus"
    | .minus => .str "minus"
  read? j :=
    match j.variant? with
    | some ("plus", payload) => bare .plus payload
    | some ("minus", payload) => bare .minus payload
    | _ => none

instance : JsonForm BoundsPolicy where
  write
    | .reject => .str "reject"
    | .clamp => .str "clamp"
  read? j :=
    match j.variant? with
    | some ("reject", payload) => bare .reject payload
    | some ("clamp", payload) => bare .clamp payload
    | _ => none

/-- Reads the count and the sides of dice. -/
def TermKind.diceOfJson? (j : Json) : Option TermKind := do
  let [count, sides] ← j.record? ["count", "sides"] false | none
  return .dice (← required count) (← required sides)

instance : JsonForm TermKind where
  write
    | .dice count sides => .obj [("dice", .obj [("count", of count), ("sides", of sides)])]
    | .constant value => .obj [("constant", of value)]
  read? j :=
    match j.variant? with
    | some ("dice", some body) => TermKind.diceOfJson? body
    | some ("constant", payload) => carrying TermKind.constant payload
    | _ => none

instance : JsonForm Origin where
  write
    | .base => .str "base"
    | .modifier index => .obj [("modifier", of index)]
    | .netModifier => .str "net_modifier"
  read? j :=
    match j.variant? with
    | some ("base", payload) => bare .base payload
    | some ("modifier", payload) => carrying Origin.modifier payload
    | some ("net_modifier", payload) => bare .netModifier payload
    | _ => none

instance : JsonForm Term where
  write t := .obj [("sign", of t.sign), ("kind", of t.kind), ("origin", of t.origin)]
  read? j := do
    let [sign, kind, origin] ← j.record? ["sign", "kind", "origin"] false | none
    return ⟨← required sign, ← required kind, ← required origin⟩

instance : JsonForm Formula where
  write f := .obj [("terms", of f.terms)]
  read? j := do
    let [terms] ← j.record? ["terms"] false | none
    return ⟨← required terms⟩

end Tabletop
