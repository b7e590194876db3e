import Mathlib.Data.List.Induction
import Tabletop.Proofs.Settings.Distinct
import Tabletop.Proofs.Toml.Distinct
import Tabletop.Settings.Load

/-!
# Layers, key by key

What stands under a path in layers that are laid over each other is what stands there in the upper
one, or else what stands there in the lower one.

* `Json.TablesTo` — whether the way of a path leads through tables only.
* `Json.at?_overlay` — the value under a path in two layers.
* `Settings.leaves` — the paths of the values that settings are made of.
* `Environment.value?` — the value that the variables set under a path.
* `Settings.at?_merged` — the value under a leaf in the merged layers.
-/

namespace Tabletop

namespace Json

/-! ## Paths of one name -/

theorem at?_single (fields : List (String × Json)) (name : String) :
    (obj fields).at? [name] = Fields.get? name fields := by
  rw [at?]
  cases Fields.get? name fields <;> rfl

/-- A value under a name stands in a table. -/
theorem exists_of_at?_single {j value : Json} {name : String} (h : j.at? [name] = some value) :
    ∃ fields, j = .obj fields ∧ Fields.get? name fields = some value := by
  cases j with
  | obj fields => exact ⟨fields, rfl, (at?_single fields name).symm.trans h⟩
  | _ => cases h

theorem at?_single_of_forall_ne {j : Json} (h : ∀ fields, j ≠ .obj fields) (name : String) :
    j.at? [name] = none := by
  cases j with
  | obj fields => exact absurd rfl (h fields)
  | _ => rfl

theorem at?_pair {j value : Json} {first : String} (h : j.at? [first] = some value)
    (second : String) : j.at? [first, second] = value.at? [second] := by
  obtain ⟨fields, rfl, hvalue⟩ := exists_of_at?_single h
  rw [at?, hvalue, Option.bind_some]

/-! ## Two layers -/

/-- Whether the way of a path leads through tables only, as far as it goes. -/
def TablesTo : List String → Json → Prop
  | [], _ => True
  | name :: path, j => ∃ fields, j = .obj fields ∧
      ∀ inner, Fields.get? name fields = some inner → inner.TablesTo path

theorem tablesTo_empty (path : List String) : (obj []).TablesTo path := by
  cases path with
  | nil => trivial
  | cons name path => exact ⟨[], rfl, nofun⟩

theorem tablesTo_single (fields : List (String × Json)) (name : String) :
    (obj fields).TablesTo [name] :=
  ⟨fields, rfl, fun _ _ => trivial⟩

theorem at?_empty {path : List String} (h : path ≠ []) : (obj []).at? path = none := by
  obtain ⟨name, rest, rfl⟩ := List.exists_cons_of_ne_nil h
  rfl

theorem overlay_of_forall_ne {lower upper : Json} (h : ∀ fields, upper ≠ .obj fields) :
    lower.overlay upper = upper := by
  cases upper with
  | obj fields => exact absurd rfl (h fields)
  | _ => rfl

theorem overlay_of_lower_forall_ne {lower : Json} (h : ∀ fields, lower ≠ .obj fields)
    (upper : Json) : lower.overlay upper = upper := by
  cases upper with
  | obj fields =>
    cases lower with
    | obj below => exact absurd rfl (h below)
    | _ => rfl
  | _ => rfl

theorem get?_overlayFields {name : String} {fields : List (String × Json)}
    (hnodup : (fields.map Prod.fst).Nodup) (below : List (String × Json)) :
    Fields.get? name (overlayFields below fields) =
      ((Fields.get? name fields).map fun value =>
        (Fields.get? name below).elim value (·.overlay value)).or (Fields.get? name below) := by
  induction fields generalizing below with
  | nil => rw [overlayFields_nil]; rfl
  | cons field rest ih =>
    obtain ⟨n, value⟩ := field
    obtain ⟨hn, hrest⟩ := List.nodup_cons.mp hnodup
    rw [overlayFields, ih hrest, Fields.get?]
    by_cases hname : n = name
    · subst hname
      rw [Fields.get?_eq_none_iff.mpr hn, Fields.get?_set, if_pos rfl]
      cases Fields.get? n below <;> rfl
    · rw [Fields.get?_set_ne (Ne.symm hname), if_neg hname]

/-- The value under a path is that of the upper layer, laid over that of the lower one, or else that
of the lower one. -/
theorem at?_overlay {lower upper : Json} {path : List String} (hdistinct : upper.Distinct)
    (htables : upper.TablesTo path) : (lower.overlay upper).at? path =
      ((upper.at? path).map fun value => (lower.at? path).elim value (·.overlay value)).or
        (lower.at? path) := by
  induction path generalizing lower upper with
  | nil => rfl
  | cons name path ih =>
    obtain ⟨fields, rfl, hinner⟩ := htables
    cases lower with
    | obj below =>
      rw [overlay_obj, at?, at?, at?, get?_overlayFields (distinct_obj.mp hdistinct).1]
      cases hupper : Fields.get? name fields with
      | none => rfl
      | some value =>
        cases hlower : Fields.get? name below with
        | none => simp
        | some old => simpa using ih (hdistinct.get? hupper) (hinner value hupper)
    | _ => simp [overlay, at?]

/-- A way through tables in both layers leads through tables in the layers together. -/
theorem TablesTo.overlay {lower upper : Json} {path : List String} (hdistinct : upper.Distinct)
    (hlower : lower.TablesTo path) (hupper : upper.TablesTo path) :
    (lower.overlay upper).TablesTo path := by
  induction path generalizing lower upper with
  | nil => trivial
  | cons name path ih =>
    obtain ⟨below, rfl, hbelow⟩ := hlower
    obtain ⟨fields, rfl, hfields⟩ := hupper
    refine ⟨_, overlay_obj below fields, fun inner hinner => ?_⟩
    rw [get?_overlayFields (distinct_obj.mp hdistinct).1] at hinner
    cases hvalue : Fields.get? name fields with
    | none => exact hbelow inner (by simpa [hvalue] using hinner)
    | some value =>
      cases hold : Fields.get? name below with
      | none =>
        obtain rfl : value = inner := by simpa [hvalue, hold] using hinner
        exact hfields value hvalue
      | some old =>
        obtain rfl : old.overlay value = inner := by simpa [hvalue, hold] using hinner
        exact ih (hdistinct.get? hvalue) (hbelow old hold) (hfields value hvalue)

/-- The way to a path leads through tables in a layer that sets nothing on it. -/
theorem tablesTo_nested {set path : List String} (h : set <+: path → set = path) (value : Json) :
    (nested set value).TablesTo path := by
  induction set generalizing path with
  | nil =>
    obtain rfl : [] = path := h List.nil_prefix
    trivial
  | cons name set ih =>
    cases path with
    | nil => trivial
    | cons first path =>
      refine ⟨[(name, nested set value)], rfl, fun inner hinner => ?_⟩
      rw [Fields.get?] at hinner
      split at hinner
      · next hname =>
        cases hinner
        refine ih fun hset => ?_
        exact (List.cons.inj (h (hname ▸ List.cons_prefix_cons.mpr ⟨rfl, hset⟩))).2
      · cases hinner

/-- Nothing stands under a path that leads to nothing that is set, nor through it. -/
theorem at?_nested_eq_none {set path : List String} (hset : ¬ set <+: path) (hpath : ¬ path <+: set)
    (value : Json) : (nested set value).at? path = none := by
  induction set generalizing path with
  | nil => exact absurd List.nil_prefix hset
  | cons name set ih =>
    cases path with
    | nil => exact absurd List.nil_prefix hpath
    | cons first path =>
      have hnested : (nested (name :: set) value).at? (first :: path) =
          (Fields.get? first [(name, nested set value)]).bind (·.at? path) := rfl
      rw [hnested, Fields.get?]
      split
      · next hname =>
        subst hname
        rw [List.cons_prefix_cons, not_and] at hset hpath
        exact ih (hset rfl) (hpath rfl)
      · rfl

end Json

/-! ## Leaves -/

namespace Settings

/-- The paths of the values that settings are made of. -/
def leaves : List (List String) :=
  ["seed"] :: ["log_filter"] :: Config.fieldNames.map fun name => ["mechanic", name]

theorem mem_leaves {leaf : List String} : leaf ∈ leaves ↔
    leaf = ["seed"] ∨ leaf = ["log_filter"] ∨
      ∃ name ∈ Config.fieldNames, leaf = ["mechanic", name] := by
  simp only [leaves, List.mem_cons, List.mem_map, eq_comm]

theorem leaf_ne_nil {leaf : List String} (h : leaf ∈ leaves) : leaf ≠ [] := by
  rcases mem_leaves.mp h with rfl | rfl | ⟨name, -, rfl⟩ <;> exact List.cons_ne_nil _ _

/-- What lies in front of a leaf is the mechanic. -/
theorem eq_of_prefix_leaf {leaf path : List String} (hleaf : leaf ∈ leaves) (h : path <+: leaf) :
    path = [] ∨ path = ["mechanic"] ∨ path = leaf := by
  rcases mem_leaves.mp hleaf with rfl | rfl | ⟨name, -, rfl⟩ <;>
    simp only [List.prefix_cons_iff, List.prefix_nil, exists_eq_right] at h
  · exact h.imp_right .inr
  · exact h.imp_right .inr
  · obtain rfl | ⟨rest, rfl, rfl | rfl⟩ := h
    · exact .inl rfl
    · exact .inr (.inl rfl)
    · exact .inr (.inr rfl)

/-- No leaf lies below another. -/
theorem leaf_eq_of_below {leaf path : List String} (hleaf : leaf ∈ leaves) (hpath : path ∈ leaves)
    (h : leaf <+: path) : leaf = path := by
  rcases eq_of_prefix_leaf hpath h with rfl | rfl | h
  · exact absurd rfl (leaf_ne_nil hleaf)
  · exact absurd hleaf (by decide)
  · exact h

end Settings

section Layer

variable {name : String} (text : String)

theorem Variable.layer_of_nil (h : path name = []) : layer name text = .obj [] := by
  rw [layer, h]

theorem Variable.layer_of_ne_nil (h : path name ≠ []) :
    layer name text = Json.nested (path name) (value text) := by
  obtain ⟨first, rest, hpath⟩ := List.exists_cons_of_ne_nil h
  rw [layer, hpath]

end Layer

namespace Environment

/-- The value that the variables set under a path: that of the last one that sets it. -/
def value? (environment : Environment) (path : List String) : Option Json :=
  (environment.reverse.find? fun v => Variable.path v.1 = path).map fun v => Variable.value v.2

/-- Whether the variables set leaves, each to a value that is no table, or keys that are no leaves
and lie below none. -/
def SetsLeaves (environment : Environment) : Prop :=
  ∀ name text, (name, text) ∈ environment → Variable.path name ≠ ["mechanic"] ∧
    ∀ leaf ∈ Settings.leaves, leaf <+: Variable.path name →
      Variable.path name = leaf ∧ ∀ fields, Variable.value text ≠ .obj fields

/-- Variables that set leaves alone do so. -/
theorem setsLeaves_of_forall {environment : Environment}
    (h : ∀ v ∈ environment, Variable.path v.1 ∈ Settings.leaves ∧
      ∀ fields, Variable.value v.2 ≠ .obj fields) : environment.SetsLeaves := by
  intro name text hmem
  obtain ⟨hpath, hvalue⟩ := h (name, text) hmem
  refine ⟨fun hmechanic => absurd (hmechanic ▸ hpath) (by decide), fun leaf hleaf hbelow => ?_⟩
  exact ⟨(Settings.leaf_eq_of_below hleaf hpath hbelow).symm, hvalue⟩

theorem layer_append (environment : Environment) (name text : String) :
    layer (environment ++ [(name, text)]) =
      environment.layer.overlay (Variable.layer name text) := by
  rw [layer, List.map_append, List.foldl_append]
  rfl

theorem value?_append (environment : Environment) (name text : String) (path : List String) :
    value? (environment ++ [(name, text)]) path =
      if Variable.path name = path then some (Variable.value text)
      else environment.value? path := by
  rw [value?, value?, List.reverse_append, List.reverse_singleton, List.singleton_append,
    List.find?_cons]
  by_cases h : Variable.path name = path <;> simp [h]

theorem SetsLeaves.init {rest : Environment} {last : String × String}
    (h : SetsLeaves (rest ++ [last])) : rest.SetsLeaves :=
  fun name text hmem => h name text (List.mem_append_left _ hmem)

section Leaf

variable {leaf : List String} (hleaf : leaf ∈ Settings.leaves)

include hleaf

/-- What a variable does to a leaf: it sets it, or nothing that has to do with it. -/
theorem SetsLeaves.cases {environment : Environment} (h : environment.SetsLeaves)
    {name text : String} (hmem : (name, text) ∈ environment) :
    Variable.path name = [] ∨
    (Variable.path name = leaf ∧ ∀ fields, Variable.value text ≠ .obj fields) ∨
    (¬ Variable.path name <+: leaf ∧ ¬ leaf <+: Variable.path name) := by
  obtain ⟨hmechanic, hleaves⟩ := h name text hmem
  by_cases hbelow : leaf <+: Variable.path name
  · exact .inr (.inl (hleaves leaf hleaf hbelow))
  · by_cases habove : Variable.path name <+: leaf
    · rcases Settings.eq_of_prefix_leaf hleaf habove with hnil | hpath | hpath
      · exact .inl hnil
      · exact absurd hpath hmechanic
      · exact absurd (hpath ▸ List.prefix_rfl) hbelow
    · exact .inr (.inr ⟨habove, hbelow⟩)

theorem SetsLeaves.tablesTo_variable {environment : Environment} (h : environment.SetsLeaves)
    {name text : String} (hmem : (name, text) ∈ environment) :
    (Variable.layer name text).TablesTo leaf := by
  rcases h.cases hleaf hmem with hnil | ⟨hpath, -⟩ | ⟨habove, -⟩
  · rw [Variable.layer_of_nil text hnil]
    exact Json.tablesTo_empty leaf
  · rw [Variable.layer_of_ne_nil text (hpath ▸ Settings.leaf_ne_nil hleaf)]
    exact Json.tablesTo_nested (fun _ => hpath) _
  · rw [Variable.layer_of_ne_nil text fun hnil => habove (hnil ▸ List.nil_prefix)]
    exact Json.tablesTo_nested (fun hprefix => absurd hprefix habove) _

theorem SetsLeaves.at?_variable {environment : Environment} (h : environment.SetsLeaves)
    {name text : String} (hmem : (name, text) ∈ environment) :
    (Variable.layer name text).at? leaf =
      if Variable.path name = leaf then some (Variable.value text) else none := by
  have hnonempty := Settings.leaf_ne_nil hleaf
  rcases h.cases hleaf hmem with hnil | ⟨hpath, -⟩ | ⟨habove, hbelow⟩
  · have hne : Variable.path name ≠ leaf := fun hpath => hnonempty (hpath ▸ hnil)
    rw [Variable.layer_of_nil text hnil, if_neg hne, Json.at?_empty hnonempty]
  · rw [Variable.layer_of_ne_nil text (hpath ▸ hnonempty), if_pos hpath, hpath, Json.at?_nested]
  · have hne : Variable.path name ≠ leaf := fun hpath => habove (hpath ▸ List.prefix_rfl)
    rw [Variable.layer_of_ne_nil text fun hnil => habove (hnil ▸ List.nil_prefix), if_neg hne,
      Json.at?_nested_eq_none habove hbelow]

/-- A leaf is reached through tables. -/
theorem SetsLeaves.tablesTo {environment : Environment} (h : environment.SetsLeaves) :
    environment.layer.TablesTo leaf := by
  induction environment using List.reverseRecOn with
  | nil => exact Json.tablesTo_empty leaf
  | append_singleton rest last ih =>
    obtain ⟨name, text⟩ := last
    have hmem : (name, text) ∈ rest ++ [(name, text)] := List.mem_append_right _ List.mem_cons_self
    rw [layer_append]
    exact (ih h.init).overlay (Variable.distinct_layer name text) (h.tablesTo_variable hleaf hmem)

/-- What the variables set under a leaf is no table. -/
theorem SetsLeaves.value?_ne_obj {environment : Environment} (h : environment.SetsLeaves)
    {value : Json} (hvalue : environment.value? leaf = some value) (fields : List (String × Json)) :
    value ≠ .obj fields := by
  obtain ⟨⟨name, text⟩, hfind, rfl⟩ := Option.map_eq_some_iff.mp hvalue
  have hmem : (name, text) ∈ environment := List.mem_reverse.mp (List.mem_of_find?_eq_some hfind)
  have hpath : Variable.path name = leaf := by simpa using List.find?_some hfind
  exact ((h name text hmem).2 leaf hleaf (hpath ▸ List.prefix_rfl)).2 fields

/-- What stands under a leaf is what the variables set. -/
theorem SetsLeaves.at?_layer {environment : Environment} (h : environment.SetsLeaves) :
    environment.layer.at? leaf = environment.value? leaf := by
  induction environment using List.reverseRecOn with
  | nil => exact Json.at?_empty (Settings.leaf_ne_nil hleaf)
  | append_singleton rest last ih =>
    obtain ⟨name, text⟩ := last
    have hmem : (name, text) ∈ rest ++ [(name, text)] := List.mem_append_right _ List.mem_cons_self
    rw [layer_append, Json.at?_overlay (Variable.distinct_layer name text)
      (h.tablesTo_variable hleaf hmem), h.at?_variable hleaf hmem, ih h.init, value?_append]
    split
    · next hpath =>
      have hvalue := ((h name text hmem).2 leaf hleaf (hpath ▸ List.prefix_rfl)).2
      rw [Option.map_some, Option.some_or]
      cases value? rest leaf with
      | none => rfl
      | some old => rw [Option.elim_some, Json.overlay_of_forall_ne hvalue]
    · rfl

end Leaf

/-! ### Parts of a table -/

/-- A variable sets part of what stands under a name when its path starts with it. -/
theorem isSome_at?_variable {name text first : String} :
    ((Variable.layer name text).at? [first]).isSome ↔ [first] <+: Variable.path name := by
  cases hpath : Variable.path name with
  | nil => simp [Variable.layer_of_nil text hpath, Json.at?_empty]
  | cons second rest =>
    have hlayer : Variable.layer name text =
        .obj [(second, Json.nested rest (Variable.value text))] := by
      rw [Variable.layer_of_ne_nil text (hpath ▸ List.cons_ne_nil _ _), hpath]
      rfl
    rw [hlayer, Json.at?_single, Fields.get?, List.cons_prefix_cons]
    by_cases hname : second = first
    · simp [hname]
    · simp [hname, Fields.get?, Ne.symm hname]

theorem tablesTo_variable_single (name text first : String) :
    (Variable.layer name text).TablesTo [first] := by
  cases hpath : Variable.path name with
  | nil =>
    rw [Variable.layer_of_nil text hpath]
    exact Json.tablesTo_single _ _
  | cons second rest =>
    rw [Variable.layer_of_ne_nil text (hpath ▸ List.cons_ne_nil _ _), hpath]
    exact Json.tablesTo_single _ _

theorem tablesTo_single (environment : Environment) (first : String) :
    environment.layer.TablesTo [first] := by
  induction environment using List.reverseRecOn with
  | nil => exact Json.tablesTo_empty _
  | append_singleton rest last ih =>
    rw [layer_append]
    exact ih.overlay (Variable.distinct_layer _ _) (tablesTo_variable_single _ _ _)

/-- The variables set part of what stands under a name when one of them does. -/
theorem isSome_at?_layer {environment : Environment} {first : String} :
    (environment.layer.at? [first]).isSome ↔ ∃ v ∈ environment, [first] <+: Variable.path v.1 := by
  induction environment using List.reverseRecOn with
  | nil => exact iff_of_false nofun fun ⟨_, hmem, _⟩ => List.not_mem_nil hmem
  | append_singleton rest last ih =>
    rw [layer_append, Json.at?_overlay (Variable.distinct_layer _ _)
      (tablesTo_variable_single _ _ _), Option.isSome_or, Option.isSome_map, Bool.or_eq_true,
      isSome_at?_variable, ih]
    simp only [List.mem_append, List.mem_singleton, or_and_right, exists_or, exists_eq_left]
    exact or_comm

end Environment

/-! ## The merged layers -/

namespace Settings

/-- The layer of a file is a table that repeats no key. -/
theorem exists_fields_of_fileLayer {file : SettingsFile} {layer : Json}
    (h : fileLayer file = .ok layer) : ∃ fields, layer = .obj fields ∧ layer.Distinct := by
  cases file with
  | unused =>
    cases h
    exact ⟨[], rfl, Json.distinct_nil⟩
  | missing name => cases h
  | text contents =>
    rw [fileLayer] at h
    split at h
    · next value hvalue =>
      cases h
      obtain ⟨j, hj, hvalue⟩ := Option.bind_eq_some_iff.mp hvalue
      obtain ⟨table, rfl⟩ := Toml.exists_fields_of_read? hj
      obtain ⟨fields, hfields, rfl⟩ := Option.map_eq_some_iff.mp hvalue
      exact ⟨fields, rfl, Json.DistinctFields.unwrap? table (Toml.distinct_of_read? hj) hfields⟩
    · cases h

theorem distinct_of_fileLayer {file : SettingsFile} {layer : Json}
    (h : fileLayer file = .ok layer) : layer.Distinct := by
  obtain ⟨_, -, hdistinct⟩ := exists_fields_of_fileLayer h
  exact hdistinct

/-- Every leaf is built in, with a value that is no table. -/
theorem exists_preset {leaf : List String} (h : leaf ∈ leaves) :
    ∃ value, (Json.of ({} : Settings)).at? leaf = some value ∧ ∀ fields, value ≠ .obj fields := by
  simp only [leaves, Config.fieldNames, List.map_cons, List.map_nil, List.mem_cons,
    List.not_mem_nil, or_false] at h
  rcases h with rfl | rfl | rfl | rfl | rfl | rfl | rfl | rfl | rfl | rfl | rfl <;>
    exact ⟨_, rfl, nofun⟩

theorem distinct_preset : (Json.of ({} : Settings)).Distinct :=
  ⟨by decide, ⟨by decide, trivial, trivial, trivial, trivial, trivial, trivial, trivial, trivial,
    trivial, trivial⟩, trivial, trivial, trivial⟩

/-- The value that stands under a leaf: that of its variable, or else that of the file, or else the
built-in one. -/
def winning (layer : Json) (environment : Environment) (leaf : List String) : Option Json :=
  (environment.value? leaf).or ((layer.at? leaf).or ((Json.of ({} : Settings)).at? leaf))

theorem isSome_winning {leaf : List String} (h : leaf ∈ leaves) (layer : Json)
    (environment : Environment) : (winning layer environment leaf).isSome := by
  obtain ⟨preset, hpreset, -⟩ := exists_preset h
  simp [winning, hpreset]

theorem winning_or (layer : Json) (environment : Environment) (leaf : List String) :
    (winning layer environment leaf).or ((Json.of ({} : Settings)).at? leaf) =
      winning layer environment leaf := by
  rw [winning, Option.or_assoc, Option.or_assoc, Option.or_self]

section Merged

variable {file : SettingsFile} {layer : Json} {environment : Environment}
  (hfile : fileLayer file = .ok layer) (henvironment : environment.SetsLeaves)

include hfile

theorem tablesTo_fileLayer_single (name : String) : layer.TablesTo [name] := by
  obtain ⟨fields, rfl, -⟩ := exists_fields_of_fileLayer hfile
  exact Json.tablesTo_single fields name

theorem tablesTo_fileLayer {leaf : List String} (h : leaf ∈ leaves)
    (hmechanic : ∀ j, layer.at? ["mechanic"] = some j → ∃ fields, j = .obj fields) :
    layer.TablesTo leaf := by
  rcases mem_leaves.mp h with rfl | rfl | ⟨name, -, rfl⟩
  · exact tablesTo_fileLayer_single hfile _
  · exact tablesTo_fileLayer_single hfile _
  · obtain ⟨fields, rfl, -⟩ := exists_fields_of_fileLayer hfile
    refine ⟨fields, rfl, fun inner hinner => ?_⟩
    obtain ⟨mechanic, rfl⟩ := hmechanic inner ((Json.at?_single fields _).trans hinner)
    exact Json.tablesTo_single mechanic name

include henvironment

/-- **Each leaf by itself.** In the merged layers the winning value stands under a leaf that the
file leads to through tables, whatever the layers set under other keys. -/
theorem at?_merged {leaf : List String} (h : leaf ∈ leaves) (htables : layer.TablesTo leaf) :
    (merged layer environment).at? leaf = winning layer environment leaf := by
  obtain ⟨preset, hpreset, hleaf⟩ := exists_preset h
  have hlayer : ((Json.of ({} : Settings)).overlay layer).at? leaf =
      (layer.at? leaf).or (some preset) := by
    rw [Json.at?_overlay (distinct_of_fileLayer hfile) htables, hpreset]
    cases layer.at? leaf with
    | none => rfl
    | some value =>
      rw [Option.map_some, Option.elim_some, Json.overlay_of_lower_forall_ne hleaf]
  rw [merged, Json.at?_overlay environment.distinct_layer (henvironment.tablesTo h), hlayer,
    henvironment.at?_layer h, winning, hpreset]
  cases hvalue : environment.value? leaf with
  | none => rfl
  | some value =>
    rw [Option.map_some, Option.some_or, Option.some_or]
    cases (layer.at? leaf).or (some preset) with
    | none => rfl
    | some old =>
      rw [Option.elim_some, Json.overlay_of_forall_ne (henvironment.value?_ne_obj h hvalue)]

/-- The same with the built-in value under a leaf that is not set; each is. -/
theorem at?_merged_or {leaf : List String} (h : leaf ∈ leaves) (htables : layer.TablesTo leaf) :
    ((merged layer environment).at? leaf).or ((Json.of ({} : Settings)).at? leaf) =
      winning layer environment leaf := by
  rw [at?_merged hfile henvironment h htables, winning_or]

end Merged

section NoTable

variable {file : SettingsFile} {layer value : Json} {environment : Environment}
  (hfile : fileLayer file = .ok layer) (hvalue : layer.at? ["mechanic"] = some value)
  (htable : ∀ fields, value ≠ .obj fields)

include hfile hvalue htable

/-- A mechanic of the file that is no table stands over the built-in one as a whole, and what the
variables set of a mechanic stands over it as a whole. -/
theorem at?_merged_mechanic : (merged layer environment).at? ["mechanic"] =
    (environment.layer.at? ["mechanic"]).or (some value) := by
  have hlayer : ((Json.of ({} : Settings)).overlay layer).at? ["mechanic"] = some value := by
    rw [Json.at?_overlay (distinct_of_fileLayer hfile) (tablesTo_fileLayer_single hfile _), hvalue,
      Option.map_some, Option.some_or, Option.some.injEq]
    exact Json.overlay_of_forall_ne htable
  rw [merged, Json.at?_overlay environment.distinct_layer (environment.tablesTo_single _), hlayer]
  simp only [Option.elim_some, Json.overlay_of_lower_forall_ne htable, Option.map_id']

/-- Variables that set part of the mechanic stand for a mechanic of the file that is no table, so
that the winning values are those of a file without a mechanic. -/
theorem at?_merged_of_replaced (henvironment : environment.SetsLeaves)
    (hset : ∃ v ∈ environment, ["mechanic"] <+: Variable.path v.1) {leaf : List String}
    (h : leaf ∈ leaves) : ((merged layer environment).at? leaf).or
      ((Json.of ({} : Settings)).at? leaf) = winning layer environment leaf := by
  rcases mem_leaves.mp h with rfl | rfl | ⟨name, -, rfl⟩
  · exact at?_merged_or hfile henvironment h (tablesTo_fileLayer_single hfile _)
  · exact at?_merged_or hfile henvironment h (tablesTo_fileLayer_single hfile _)
  · obtain ⟨set, hset⟩ := Option.isSome_iff_exists.mp (Environment.isSome_at?_layer.mpr hset)
    have hmerged : (merged layer environment).at? ["mechanic"] = some set := by
      rw [at?_merged_mechanic hfile hvalue htable, hset, Option.some_or]
    rw [Json.at?_pair hmerged, ← Json.at?_pair hset, henvironment.at?_layer h, winning,
      Json.at?_pair hvalue, Json.at?_single_of_forall_ne htable, Option.none_or]

end NoTable

theorem distinct_merged {file : SettingsFile} {layer : Json} (hfile : fileLayer file = .ok layer)
    (environment : Environment) : (merged layer environment).Distinct :=
  (distinct_preset.overlay _ (distinct_of_fileLayer hfile)).overlay _ environment.distinct_layer

end Settings

end Tabletop
