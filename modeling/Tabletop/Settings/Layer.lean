import Tabletop.Fields
import Tabletop.Json.Basic

/-!
# Layers

Settings come in layers, each a JSON object that sets some keys.

* `Json.overlay` — a layer over another. Where both have an object under a key the objects are
  laid over each other in turn; otherwise the upper layer's value stands.
* `Json.nested` — the layer that sets one key, given by its path.
* `Json.at?` — the value under a path.
* `Json.cutItems` — a layer without the last items of an array.
-/

namespace Tabletop.Json

mutual

/-- The layer `upper` over the layer `lower`. -/
def overlay (lower : Json) : Json → Json
  | .obj fields =>
    match lower with
    | .obj below => .obj (overlayFields below fields)
    | _ => .obj fields
  | upper => upper

/-- Fields laid over the fields below them, one after the other. -/
def overlayFields (below : List (String × Json)) : List (String × Json) → List (String × Json)
  | [] => below
  | (name, value) :: rest =>
    let merged :=
      match Fields.get? name below with
      | some old => overlay old value
      | none => value
    overlayFields (Fields.set name merged below) rest

end

/-- The layer that holds one value under a path. -/
def nested (path : List String) (value : Json) : Json :=
  path.foldr (fun name inner => .obj [(name, inner)]) value

/-- The value under a path. -/
def at? (j : Json) : List String → Option Json
  | [] => some j
  | name :: rest =>
    match j with
    | .obj fields => (Fields.get? name fields).bind fun inner => inner.at? rest
    | _ => none

/-- The layer without the items from the `n`th on of an array under a key. -/
def cutItems (key : String) (n : Nat) : Json → Json
  | .obj fields => .obj (fields.map cutField)
  | j => j
where
  /-- a field, with fewer items when it is an array under the key -/
  cutField : String × Json → String × Json
    | (name, .arr items) => (name, .arr (if name = key then items.take n else items))
    | field => field

/-- Objects are laid over each other field by field. -/
theorem overlay_obj (below fields : List (String × Json)) :
    (obj below).overlay (obj fields) = obj (overlayFields below fields) := by
  simp [overlay]

@[simp] theorem overlayFields_nil (below : List (String × Json)) :
    overlayFields below [] = below := by
  simp [overlayFields]

@[simp] theorem at?_nested (path : List String) (value : Json) :
    (nested path value).at? path = some value := by
  induction path with
  | nil => rfl
  | cons name rest ih => simpa [nested, at?, Fields.get?] using ih

end Tabletop.Json
