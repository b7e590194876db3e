import Tabletop.Outcome
import Tabletop.Storage.Formula

/-!
# JSON form of rolls

Modifiers, requests, rolled terms, evaluations, warnings and outcomes as JSON. Every field of a
request may be absent; of an evaluation and an outcome, those whose value may be missing.
-/

namespace Tabletop

open Json

/-- A number and an expression are told apart by their JSON form. -/
instance : JsonForm ModifierValue where
  write
    | .integer amount => of amount
    | .dice expression => of expression
  read?
    | .int n => (Amount.ofInt? n).map .integer
    | .str expression => some (.dice expression)
    | _ => none

instance : JsonForm Modifier where
  write m := .obj [("name", of m.name), ("value", of m.value)]
  read? j := do
    let [name, value] ← j.record? ["name", "value"] false | none
    return ⟨← required name, ← required value⟩

instance : JsonForm Request where
  write r := .obj [
    ("formula", of r.formula),
    ("modifiers", of r.modifiers),
    ("target", of r.target),
    ("difficulty", of r.difficulty)]
  read? j := do
    let [formula, modifiers, target, difficulty] ←
      j.record? ["formula", "modifiers", "target", "difficulty"] true | none
    return {
      formula := ← defaulting none formula
      modifiers := ← defaulting [] modifiers
      target := ← defaulting none target
      difficulty := ← defaulting none difficulty }

instance : JsonForm RolledDie where
  write die := .obj [("rolls", of die.rolls), ("capped", of die.capped)]
  read? j := do
    let [rolls, capped] ← j.record? ["rolls", "capped"] false | none
    return ⟨← required rolls, ← required capped⟩

instance : JsonForm TermResult where
  write
    | .dice dice => .obj [("dice", of dice)]
    | .constant value => .obj [("constant", of value)]
  read? j :=
    match j.variant? with
    | some ("dice", payload) => carrying TermResult.dice payload
    | some ("constant", payload) => carrying TermResult.constant payload
    | _ => none

instance : JsonForm RolledTerm where
  write t := .obj [("term", of t.term), ("result", of t.result)]
  read? j := do
    let [term, result] ← j.record? ["term", "result"] false | none
    return ⟨← required term, ← required result⟩

instance : JsonForm Evaluation where
  write e := .obj [("total", of e.total), ("success", of e.success), ("against", of e.against)]
  read? j := do
    let [total, success, against] ← j.record? ["total", "success", "against"] false | none
    return ⟨← required total, ← defaulting none success, ← defaulting none against⟩

/-- Reads the size and the cap of a cap warning. -/
def Warning.capOfJson? (j : Json) : Option Warning := do
  let [sides, cap] ← j.record? ["sides", "cap"] false | none
  return .explosionCapExceeded (← required sides) (← required cap)

/-- Reads the name and the reason of an inert modifier. -/
def Warning.inertOfJson? (j : Json) : Option Warning := do
  let [name, reason] ← j.record? ["name", "reason"] false | none
  return .inertModifier (← required name) (← required reason)

instance : JsonForm Warning where
  write
    | .explosionCapExceeded sides cap =>
      .obj [("explosion_cap_exceeded", .obj [("sides", of sides), ("cap", of cap)])]
    | .inertModifier name reason =>
      .obj [("inert_modifier", .obj [("name", of name), ("reason", of reason)])]
  read? j :=
    match j.variant? with
    | some ("explosion_cap_exceeded", some body) => Warning.capOfJson? body
    | some ("inert_modifier", some body) => Warning.inertOfJson? body
    | _ => none

/-- The fields of an outcome, in order. -/
def Outcome.fieldNames : List String :=
  ["formula", "total", "success", "rolled_terms", "description", "criticals", "fumbles",
    "warnings"]

instance : JsonForm Outcome where
  write o := .obj [
    ("formula", of o.formula),
    ("total", of o.total),
    ("success", of o.success),
    ("rolled_terms", of o.rolledTerms),
    ("description", of o.description),
    ("criticals", of o.criticals),
    ("fumbles", of o.fumbles),
    ("warnings", of o.warnings)]
  read? j := do
    let [formula, total, success, rolledTerms, description, criticals, fumbles, warnings] ←
      j.record? Outcome.fieldNames false | none
    return {
      formula := ← required formula
      total := ← required total
      success := ← defaulting none success
      rolledTerms := ← required rolledTerms
      description := ← required description
      criticals := ← required criticals
      fumbles := ← required fumbles
      warnings := ← required warnings }

end Tabletop
