import Tabletop.Proofs.Settings.Layers
import Tabletop.Proofs.Settings.Wrapped
import Tabletop.Proofs.Storage.ReadBack

/-!
# Settings are loaded leaf by leaf

* `Settings.ReadFrom` — settings whose parts are each read from the value of a leaf.
* `Settings.ofLayer?_eq_some_iff` — the settings of a layer, whichever way it gives the mechanic.
* `Settings.load_leaf_by_leaf` — which settings are loaded from a file and variables.
* `Settings.load_of_marked` — a file that holds a mark is refused.
* `Settings.load_of_replaced`, `Settings.load_of_listed`, `Settings.load_of_neither` — the same when
  the mechanic of the file is no table.
* `Settings.load_not_leaf_by_leaf` — files that are refused, or that list the mechanic.
-/

namespace Tabletop

open Json

/-! ## Records -/

namespace Json

section Nodup

variable {fields : List (String × Json)} (hnodup : (fields.map Prod.fst).Nodup)

include hnodup

theorem field?_eq_get? (name : String) : field? fields name = some (Fields.get? name fields) := by
  cases hvalue : Fields.get? name fields with
  | none => rw [field?, named_of_not_mem (Fields.get?_eq_none_iff.mp hvalue)]
  | some value => rw [field?, named_of_mem hnodup (Fields.mem_of_get? hvalue)]

theorem record?_eq_get? (names : List String) (optional : Bool) :
    record? names optional (.obj fields) =
      some (names.map fun name => Fields.get? name fields) := by
  refine mapM_of_forall₂ (List.forall₂_map_left_iff.mpr (List.forall₂_same.mpr ?_))
  exact fun name _ => field?_eq_get? hnodup name

end Nodup

/-- A list gives the fields of a record in order, and leaves out those behind its end. -/
theorem record?_arr {names : List String} (hnodup : names.Nodup) {items : List Json}
    (h : items.length ≤ names.length) :
    record? names true (.arr items) = some (names.map fun name => items[names.idxOf name]?) := by
  have hlength : items.length = names.length ∨ (true = true ∧ items.length < names.length) :=
    (Nat.lt_or_eq_of_le h).symm.imp_right fun hlt => ⟨rfl, hlt⟩
  rw [record?, if_pos hlength, Option.some.injEq]
  refine List.ext_getElem (by simp; omega) fun i hi hname => ?_
  rw [List.length_map] at hname
  rw [List.getElem_map, hnodup.idxOf_getElem i hname]
  by_cases hitem : i < items.length
  · rw [List.getElem_append_left (by simpa using hitem), List.getElem_map,
      List.getElem?_eq_getElem hitem]
  · rw [List.getElem_append_right (by simpa using hitem), List.getElem_replicate,
      List.getElem?_eq_none (Nat.le_of_not_lt hitem)]

/-- A field that may be absent has its preset value in place of an absent one. -/
theorem required_or {α : Type} [JsonForm α] [JsonSpelling α] [LawfulJson α] (preset : α)
    (field : Option Json) :
    required (field.or (some (of preset))) = defaulting preset field := by
  cases field with
  | none => exact as?_of_spells (spells_of preset)
  | some value => rfl

/-! ## Values in a layer -/

/-- A value under two names stands in a table under the first. -/
theorem exists_of_at?_pair {j value : Json} {first second : String}
    (h : j.at? [first, second] = some value) : ∃ fields, j.at? [first] = some (.obj fields) := by
  cases j with
  | obj fields =>
    obtain ⟨below, hbelow, h⟩ := Option.bind_eq_some_iff.mp h
    cases below with
    | obj inner => exact ⟨inner, (at?_single fields first).trans hbelow⟩
    | _ => cases h
  | _ => cases h

/-- A value without the items from the `n`th on, if it is a list. -/
def takeItems (n : Nat) : Json → Json
  | .arr items => .arr (items.take n)
  | value => value

theorem cutField_eq (key : String) (n : Nat) (name : String) (value : Json) :
    cutItems.cutField key n (name, value) =
      (name, if name = key then value.takeItems n else value) := by
  cases value <;> simp [cutItems.cutField, takeItems, apply_ite arr]

theorem map_fst_cutField (key : String) (n : Nat) (fields : List (String × Json)) :
    (fields.map (cutItems.cutField key n)).map Prod.fst = fields.map Prod.fst := by
  rw [List.map_map]
  refine List.map_congr_left fun field _ => ?_
  rw [Function.comp_apply, ← Prod.eta field, cutField_eq]

/-- Items are cut off under the key alone. -/
theorem get?_cutField (key : String) (n : Nat) (fields : List (String × Json)) (name : String) :
    Fields.get? name (fields.map (cutItems.cutField key n)) =
      (Fields.get? name fields).map fun value =>
        if name = key then value.takeItems n else value := by
  induction fields with
  | nil => rfl
  | cons field rest ih =>
    obtain ⟨m, value⟩ := field
    rw [List.map_cons, cutField_eq, Fields.get?, Fields.get?, ih]
    split
    · next h => rw [h, Option.map_some]
    · rfl

end Json

/-! ## Settings and their leaves -/

namespace Settings

/-- Settings whose parts are each read from the value of a leaf. -/
@[mk_iff]
structure ReadFrom (value? : List String → Option Json) (s : Settings) : Prop where
  seed : required (value? ["seed"]) = some s.seed
  logFilter : required (value? ["log_filter"]) = some s.logFilter
  mechanic : required (value? ["mechanic", "mechanic"]) = some s.mechanic.mechanic
  baseFormula : required (value? ["mechanic", "base_formula"]) = some s.mechanic.baseFormula
  criteria : required (value? ["mechanic", "criteria"]) = some s.mechanic.criteria
  target : required (value? ["mechanic", "target"]) = some s.mechanic.target
  exploding : required (value? ["mechanic", "exploding"]) = some s.mechanic.exploding
  explodeThreshold :
    required (value? ["mechanic", "explode_threshold"]) = some s.mechanic.explodeThreshold
  difficulty : required (value? ["mechanic", "difficulty"]) = some s.mechanic.difficulty
  bounds : required (value? ["mechanic", "bounds"]) = some s.mechanic.bounds
  explosionCap : required (value? ["mechanic", "explosion_cap"]) = some s.mechanic.explosionCap

instance (value? : List String → Option Json) (s : Settings) : Decidable (s.ReadFrom value?) :=
  decidable_of_iff' _ (readFrom_iff value? s)

/-- A configuration is read from the values of its fields, or what is built in for those that are
left out. -/
theorem as?_config_iff {j : Json} {part? : String → Option Json}
    (hrecord : j.record? Config.fieldNames true = some (Config.fieldNames.map part?))
    {c : Config} : j.as? Config = some c ↔
      defaulting (Config.mechanic {}) (part? "mechanic") = some c.mechanic ∧
      defaulting (Config.baseFormula {}) (part? "base_formula") = some c.baseFormula ∧
      defaulting (Config.criteria {}) (part? "criteria") = some c.criteria ∧
      defaulting (Config.target {}) (part? "target") = some c.target ∧
      defaulting (Config.exploding {}) (part? "exploding") = some c.exploding ∧
      defaulting (Config.explodeThreshold {}) (part? "explode_threshold") =
        some c.explodeThreshold ∧
      defaulting (Config.difficulty {}) (part? "difficulty") = some c.difficulty ∧
      defaulting (Config.bounds {}) (part? "bounds") = some c.bounds ∧
      defaulting (Config.explosionCap {}) (part? "explosion_cap") = some c.explosionCap := by
  simp only [as?, JsonForm.read?, hrecord, Option.bind_eq_bind, Option.bind_some]
  simp only [Config.fieldNames, List.map_cons, List.map_nil, Option.bind_eq_some_iff,
    Option.pure_def, Option.some.injEq]
  constructor
  · rintro ⟨_, h₁, _, h₂, _, h₃, _, h₄, _, h₅, _, h₆, _, h₇, _, h₈, _, h₉, rfl⟩
    exact ⟨h₁, h₂, h₃, h₄, h₅, h₆, h₇, h₈, h₉⟩
  · rintro ⟨h₁, h₂, h₃, h₄, h₅, h₆, h₇, h₈, h₉⟩
    exact ⟨_, h₁, _, h₂, _, h₃, _, h₄, _, h₅, _, h₆, _, h₇, _, h₈, _, h₉, rfl⟩

theorem as?_settings_iff {fields : List (String × Json)} (hnodup : (fields.map Prod.fst).Nodup)
    {s : Settings} : (Json.obj fields).as? Settings = some s ↔
      defaulting (Settings.mechanic {}) (Fields.get? "mechanic" fields) = some s.mechanic ∧
      defaulting (Settings.seed {}) (Fields.get? "seed" fields) = some s.seed ∧
      defaulting (Settings.logFilter {}) (Fields.get? "log_filter" fields) = some s.logFilter := by
  simp only [as?, JsonForm.read?, record?_eq_get? hnodup, List.map_cons, List.map_nil,
    Option.bind_eq_bind, Option.bind_some, Option.bind_eq_some_iff, Option.pure_def,
    Option.some.injEq]
  constructor
  · rintro ⟨_, h₁, _, h₂, _, h₃, rfl⟩
    exact ⟨h₁, h₂, h₃⟩
  · rintro ⟨h₁, h₂, h₃⟩
    exact ⟨_, h₁, _, h₂, _, h₃, rfl⟩

theorem ofLayer?_iff {j value : Json} (hdistinct : j.Distinct)
    (hmechanic : j.at? ["mechanic"] = some value) {s : Settings} : ofLayer? j = some s ↔
      (value.takeItems Config.fieldNames.length).as? Config = some s.mechanic ∧
      defaulting (Settings.seed {}) (j.at? ["seed"]) = some s.seed ∧
      defaulting (Settings.logFilter {}) (j.at? ["log_filter"]) = some s.logFilter := by
  obtain ⟨fields, rfl, hfields⟩ := exists_of_at?_single hmechanic
  have hnodup : ((fields.map (cutItems.cutField "mechanic" Config.fieldNames.length)).map
      Prod.fst).Nodup := by
    rw [map_fst_cutField]
    exact (distinct_obj.mp hdistinct).1
  rw [ofLayer?, cutItems, as?_settings_iff hnodup]
  simp only [get?_cutField, hfields, Option.map_some, if_true, String.reduceEq, if_false,
    Option.map_id', at?_single]
  rfl

/-- The values under the leaves of a layer, when `part?` are those of the fields of its mechanic:
the built-in one under a leaf that is not set. -/
def leafValue (j : Json) (part? : String → Option Json) : List String → Option Json
  | ["mechanic", name] => (part? name).or ((Json.of ({} : Settings)).at? ["mechanic", name])
  | leaf => (j.at? leaf).or ((Json.of ({} : Settings)).at? leaf)

/-- **The settings of a layer** are read from the values under its leaves. -/
theorem ofLayer?_eq_some_iff {j value : Json} {part? : String → Option Json}
    (hdistinct : j.Distinct) (hmechanic : j.at? ["mechanic"] = some value)
    (hrecord : (value.takeItems Config.fieldNames.length).record? Config.fieldNames true =
      some (Config.fieldNames.map part?)) {s : Settings} :
    ofLayer? j = some s ↔ s.ReadFrom (leafValue j part?) := by
  rw [ofLayer?_iff hdistinct hmechanic, as?_config_iff hrecord, readFrom_iff]
  simp only [← required_or]
  constructor
  · rintro ⟨⟨h₁, h₂, h₃, h₄, h₅, h₆, h₇, h₈, h₉⟩, hseed, hfilter⟩
    exact ⟨hseed, hfilter, h₁, h₂, h₃, h₄, h₅, h₆, h₇, h₈, h₉⟩
  · rintro ⟨hseed, hfilter, h₁, h₂, h₃, h₄, h₅, h₆, h₇, h₈, h₉⟩
    exact ⟨⟨h₁, h₂, h₃, h₄, h₅, h₆, h₇, h₈, h₉⟩, hseed, hfilter⟩

/-- A layer whose mechanic is no record gives no settings. -/
theorem ofLayer?_eq_none {j value : Json} (hdistinct : j.Distinct)
    (hmechanic : j.at? ["mechanic"] = some value)
    (hrecord : (value.takeItems Config.fieldNames.length).record? Config.fieldNames true = none) :
    ofLayer? j = none := by
  refine Option.eq_none_iff_forall_ne_some.mpr fun s hs => ?_
  have hread := ((ofLayer?_iff hdistinct hmechanic).mp hs).1
  simp only [as?, JsonForm.read?, hrecord, Option.bind_eq_bind, Option.bind_none] at hread
  cases hread

theorem ReadFrom.congr {value? value?' : List String → Option Json} {s : Settings}
    (h : ∀ leaf ∈ leaves, value? leaf = value?' leaf) (hs : s.ReadFrom value?) :
    s.ReadFrom value?' := by
  simp only [leaves, Config.fieldNames, List.map_cons, List.map_nil, List.forall_mem_cons] at h
  obtain ⟨hseed, hfilter, h₁, h₂, h₃, h₄, h₅, h₆, h₇, h₈, h₉, -⟩ := h
  exact ⟨hseed ▸ hs.seed, hfilter ▸ hs.logFilter, h₁ ▸ hs.mechanic, h₂ ▸ hs.baseFormula,
    h₃ ▸ hs.criteria, h₄ ▸ hs.target, h₅ ▸ hs.exploding, h₆ ▸ hs.explodeThreshold,
    h₇ ▸ hs.difficulty, h₈ ▸ hs.bounds, h₉ ▸ hs.explosionCap⟩

/-- Only the values under the leaves count. -/
theorem readFrom_congr {value? value?' : List String → Option Json} {s : Settings}
    (h : ∀ leaf ∈ leaves, value? leaf = value?' leaf) : s.ReadFrom value? ↔ s.ReadFrom value?' :=
  ⟨.congr h, .congr fun leaf hleaf => (h leaf hleaf).symm⟩

/-- The settings of a layer whose mechanic is a table. -/
theorem ofLayer?_of_table {j : Json} {inner : List (String × Json)} (hdistinct : j.Distinct)
    (hmechanic : j.at? ["mechanic"] = some (.obj inner)) {s : Settings} :
    ofLayer? j = some s ↔
      s.ReadFrom fun leaf => (j.at? leaf).or ((Json.of ({} : Settings)).at? leaf) := by
  obtain ⟨fields, rfl, hfields⟩ := exists_of_at?_single hmechanic
  have hinner : (inner.map Prod.fst).Nodup := (distinct_obj.mp (hdistinct.get? hfields)).1
  rw [ofLayer?_eq_some_iff hdistinct hmechanic (record?_eq_get? hinner _ true)]
  refine readFrom_congr fun leaf h => ?_
  rcases mem_leaves.mp h with rfl | rfl | ⟨name, -, rfl⟩
  · rfl
  · rfl
  · rw [leafValue, at?_pair hmechanic, at?_single]

/-! ## Loading -/

section Load

variable {file : SettingsFile} {layer : Json} {environment : Environment}
  (hfile : fileLayer file = .ok layer)

include hfile

theorem load_eq_ok_iff {s : Settings} : load file environment = .ok s ↔
    ofLayer? (merged layer environment) = some s ∧ s.mechanic.validate = .ok () := by
  simp only [load, hfile, bind, Except.bind]
  cases ofLayer? (merged layer environment) with
  | none => simp
  | some settings =>
    rw [Option.some.injEq]
    cases hvalid : settings.mechanic.validate with
    | ok _ =>
      simp only [hvalid, Except.ok.injEq]
      exact ⟨fun h => ⟨h, h ▸ hvalid⟩, And.left⟩
    | error e =>
      simp only [hvalid, reduceCtorEq, false_iff, not_and]
      rintro rfl hok
      cases hvalid.symm.trans hok

theorem load_eq_config_iff {e : ConfigError} : load file environment = .error (.config e) ↔
    ∃ s, ofLayer? (merged layer environment) = some s ∧ s.mechanic.validate = .error e := by
  simp only [load, hfile, bind, Except.bind]
  cases ofLayer? (merged layer environment) with
  | none => simp
  | some settings => cases hvalid : settings.mechanic.validate <;> simp [hvalid]

theorem load_eq_shape_iff : load file environment = .error .shape ↔
    ofLayer? (merged layer environment) = none := by
  simp only [load, hfile, bind, Except.bind]
  cases ofLayer? (merged layer environment) with
  | none => simp
  | some settings => cases hvalid : settings.mechanic.validate <;> simp [hvalid]

end Load

/-! ### Leaf by leaf -/

/-- The settings of the merged layers are read from the winning values. -/
theorem ofLayer?_merged_iff {file : SettingsFile} {layer : Json} {environment : Environment}
    (hfile : fileLayer file = .ok layer)
    (hmechanic : ∀ j, layer.at? ["mechanic"] = some j → ∃ fields, j = .obj fields)
    (henvironment : environment.SetsLeaves) {s : Settings} :
    ofLayer? (merged layer environment) = some s ↔ s.ReadFrom (winning layer environment) := by
  have htables : ∀ leaf ∈ leaves, layer.TablesTo leaf :=
    fun leaf h => tablesTo_fileLayer hfile h hmechanic
  obtain ⟨inner, hinner⟩ : ∃ inner, (merged layer environment).at? ["mechanic"] =
      some (.obj inner) := by
    have hleaf : ["mechanic", "mechanic"] ∈ leaves := by decide
    obtain ⟨value, hvalue⟩ := Option.isSome_iff_exists.mp (isSome_winning hleaf layer environment)
    exact exists_of_at?_pair
      ((at?_merged hfile henvironment hleaf (htables _ hleaf)).trans hvalue)
  rw [ofLayer?_of_table (distinct_merged hfile environment) hinner]
  exact readFrom_congr fun leaf h => at?_merged_or hfile henvironment h (htables leaf h)

/-- **Settings are loaded leaf by leaf.** Let the variables set leaves or unknown keys, let the file
be readable and hold no mark, and let its mechanic be a table if it has one. Then the value of a
leaf is that of its variable, or else that of the file, or else the built-in one, whatever is set
under other keys; and settings are loaded when these values fit and the mechanic can be used. What
stands under a leaf that is set in a higher layer does not count. -/
theorem load_leaf_by_leaf {file : SettingsFile} {layer : Json} {environment : Environment}
    (hfile : fileLayer file = .ok layer)
    (hmechanic : ∀ j, layer.at? ["mechanic"] = some j → ∃ fields, j = .obj fields)
    (henvironment : environment.SetsLeaves) :
    (∀ leaf ∈ leaves, (merged layer environment).at? leaf = winning layer environment leaf) ∧
    (∀ s, load file environment = .ok s ↔
      s.ReadFrom (winning layer environment) ∧ s.mechanic.validate = .ok ()) ∧
    (∀ e, load file environment = .error (.config e) ↔
      ∃ s : Settings, s.ReadFrom (winning layer environment) ∧ s.mechanic.validate = .error e) ∧
    (load file environment = .error .shape ↔
      ¬ ∃ s : Settings, s.ReadFrom (winning layer environment)) := by
  refine ⟨fun leaf h => at?_merged hfile henvironment h (tablesTo_fileLayer hfile h hmechanic), ?_⟩
  simp only [← ofLayer?_merged_iff hfile hmechanic henvironment]
  rw [load_eq_shape_iff hfile, Option.eq_none_iff_forall_ne_some, not_exists]
  exact ⟨fun _ => load_eq_ok_iff hfile, fun _ => load_eq_config_iff hfile, Iff.rfl⟩

/-- The seed of the file does not fit, but a variable stands over it; the target of the file stays
when a variable turns exploding on. -/
theorem load_leaf_by_leaf_seed :
    let file := SettingsFile.text "seed = \"dice\"\n[mechanic]\ntarget = 12\n"
    let environment := [("ROLLCORE_SEED", "7"), ("ROLLCORE_MECHANIC__EXPLODING", "true")]
    let s : Settings := { seed := some 7, mechanic := { target := some 12, exploding := true } }
    ∃ layer, fileLayer file = .ok layer ∧ required (layer.at? ["seed"]) = some "dice" ∧
      s.ReadFrom (winning layer environment) := by
  intro file environment s
  have hload : load file environment = .ok s := by decide +kernel
  have hlayer : (fileLayer file).map (fun layer =>
      ((required (layer.at? ["seed"]) : Option String),
        (layer.at? ["mechanic", "target"]).isSome)) = .ok (some "dice", true) := by
    decide +kernel
  have henvironment : Environment.SetsLeaves environment := by
    have hseed : Variable.value "7" = .int 7 := by rfl
    have hexploding : Variable.value "true" = .bool true := by rfl
    refine Environment.setsLeaves_of_forall ?_
    simp only [environment, List.forall_mem_cons, hseed, hexploding]
    exact ⟨⟨by decide, nofun⟩, ⟨by decide, nofun⟩, List.forall_mem_nil _⟩
  cases hfile : fileLayer file with
  | error e =>
    rw [hfile] at hlayer
    cases hlayer
  | ok layer =>
    rw [hfile] at hlayer
    obtain ⟨hseed, htarget⟩ := Prod.mk.inj (Except.ok.inj hlayer)
    obtain ⟨value, hvalue⟩ := Option.isSome_iff_exists.mp htarget
    obtain ⟨inner, hinner⟩ := Json.exists_of_at?_pair hvalue
    refine ⟨_, rfl, hseed, ((load_leaf_by_leaf hfile ?_ henvironment).2.1 s).mp hload |>.1⟩
    intro j hj
    rw [hinner] at hj
    exact ⟨inner, (Option.some.inj hj).symm⟩

/-! ### Files that hold a mark -/

/-- **A file that holds a mark is refused**, whatever the variables set. -/
theorem load_of_marked {contents : String} {fields : List (String × Json)}
    (hread : Toml.read? contents = some (.obj fields)) (hmarked : MarkedFields fields)
    (environment : Environment) : load (.text contents) environment = .error .shape := by
  have hfile : fileLayer (.text contents) = .error .shape := by
    refine fileLayer_eq_error_iff.mpr fun fields' hread' => ?_
    cases hread.symm.trans hread'
    exact hmarked
  rw [load, hfile]
  rfl

/-! ### A mechanic that is no table -/

/-- The value under a leaf when the file lists the fields of the mechanic: under one of them the
item in its place, or else what is built in. -/
def listed (items : List Json) (layer : Json) (environment : Environment) :
    List String → Option Json
  | ["mechanic", name] => (items[Config.fieldNames.idxOf name]?).or
      ((Json.of ({} : Settings)).at? ["mechanic", name])
  | leaf => winning layer environment leaf

section NoTable

variable {file : SettingsFile} {layer : Json} {environment : Environment}
  (hfile : fileLayer file = .ok layer)

include hfile

/-- **Variables stand for a mechanic that is no table.** When they set part of the mechanic,
settings are loaded leaf by leaf all the same. -/
theorem load_of_replaced {value : Json} (hvalue : layer.at? ["mechanic"] = some value)
    (htable : ∀ fields, value ≠ .obj fields) (henvironment : environment.SetsLeaves)
    (hset : ∃ v ∈ environment, ["mechanic"] <+: Variable.path v.1) (s : Settings) :
    load file environment = .ok s ↔
      s.ReadFrom (winning layer environment) ∧ s.mechanic.validate = .ok () := by
  obtain ⟨set, hset'⟩ := Option.isSome_iff_exists.mp (Environment.isSome_at?_layer.mpr hset)
  obtain ⟨fields, hfields, hinner⟩ : environment.layer.TablesTo ["mechanic", "mechanic"] :=
    henvironment.tablesTo (by decide)
  obtain ⟨inner, rfl, -⟩ : set.TablesTo ["mechanic"] := by
    rw [hfields, at?_single] at hset'
    exact hinner set hset'
  have hmerged : (merged layer environment).at? ["mechanic"] = some (.obj inner) := by
    rw [at?_merged_mechanic hfile hvalue htable, hset', Option.some_or]
  rw [load_eq_ok_iff hfile, ofLayer?_of_table (distinct_merged hfile environment) hmerged]
  exact and_congr_left' (readFrom_congr fun leaf h =>
    at?_merged_of_replaced hfile hvalue htable henvironment hset h)

section Unset

variable (hunset : ¬ ∃ v ∈ environment, ["mechanic"] <+: Variable.path v.1)

include hunset

theorem at?_merged_of_unset {value : Json} (hvalue : layer.at? ["mechanic"] = some value)
    (htable : ∀ fields, value ≠ .obj fields) :
    (merged layer environment).at? ["mechanic"] = some value := by
  have hlayer : environment.layer.at? ["mechanic"] = none := by
    rwa [← Environment.isSome_at?_layer, Option.not_isSome_iff_eq_none] at hunset
  rw [at?_merged_mechanic hfile hvalue htable, hlayer, Option.none_or]

/-- **A list of the mechanic is taken in order.** When no variable sets part of the mechanic, a list
in the file gives its fields in order; items behind the last field do not count. -/
theorem load_of_listed {items : List Json} (hitems : layer.at? ["mechanic"] = some (.arr items))
    (henvironment : environment.SetsLeaves) (s : Settings) : load file environment = .ok s ↔
      s.ReadFrom (listed items layer environment) ∧ s.mechanic.validate = .ok () := by
  have hrecord : ((Json.arr items).takeItems Config.fieldNames.length).record?
      Config.fieldNames true =
        some (Config.fieldNames.map fun name => items[Config.fieldNames.idxOf name]?) := by
    rw [takeItems, record?_arr (by decide) (List.length_take_le _ _), Option.some.injEq]
    exact List.map_congr_left fun name hname =>
      List.getElem?_take_of_lt (List.idxOf_lt_length_of_mem hname)
  rw [load_eq_ok_iff hfile, ofLayer?_eq_some_iff (distinct_merged hfile environment)
    (at?_merged_of_unset hfile hunset hitems nofun) hrecord]
  refine and_congr_left' (readFrom_congr fun leaf h => ?_)
  rcases mem_leaves.mp h with rfl | rfl | ⟨name, -, rfl⟩
  · exact at?_merged_or hfile henvironment h (tablesTo_fileLayer_single hfile _)
  · exact at?_merged_or hfile henvironment h (tablesTo_fileLayer_single hfile _)
  · rfl

/-- **Anything else is refused** that the file sets the mechanic to, when no variable sets part of
it. -/
theorem load_of_neither {value : Json} (hvalue : layer.at? ["mechanic"] = some value)
    (htable : ∀ fields, value ≠ .obj fields) (hlist : ∀ items, value ≠ .arr items) :
    load file environment = .error .shape := by
  rw [load_eq_shape_iff hfile]
  refine ofLayer?_eq_none (distinct_merged hfile environment)
    (at?_merged_of_unset hfile hunset hvalue htable) ?_
  cases value with
  | obj fields => exact absurd rfl (htable fields)
  | arr items => exact absurd rfl (hlist items)
  | _ => rfl

end Unset

end NoTable

/-! ### What is not loaded leaf by leaf -/

/-- Not every file is loaded leaf by leaf. One that holds a mark is refused, although the winning
values fit; and one that lists the mechanic sets fields of it under no key. -/
theorem load_not_leaf_by_leaf :
    let marked := "[mechanic]\n___figment_value_id = 3\ntarget = 5\n"
    let listed := "mechanic = [\"sum\", \"4\"]\n"
    (∃ table s, Toml.read? marked = some table ∧ load (.text marked) [] = .error .shape ∧
      ReadFrom (winning table []) s ∧ s.mechanic.validate = .ok ()) ∧
    ∃ table s, Toml.read? listed = some table ∧ load (.text listed) [] = .ok s ∧
      ¬ s.ReadFrom (winning table []) := by
  intro marked listed
  constructor
  · let s : Settings := { mechanic := { target := some 5 } }
    have hread : (Toml.read? marked).map (fun table => decide (s.ReadFrom (winning table []))) =
        some true := by decide +kernel
    obtain ⟨table, htable, hread⟩ := Option.map_eq_some_iff.mp hread
    exact ⟨table, s, htable, by decide +kernel, of_decide_eq_true hread, by decide⟩
  · let s : Settings := { mechanic := { baseFormula := "4" } }
    have hread : (Toml.read? listed).map (fun table => decide (s.ReadFrom (winning table []))) =
        some false := by decide +kernel
    obtain ⟨table, htable, hread⟩ := Option.map_eq_some_iff.mp hread
    exact ⟨table, s, htable, by decide +kernel, of_decide_eq_false hread⟩

end Settings

end Tabletop
