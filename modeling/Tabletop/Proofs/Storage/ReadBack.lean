import Tabletop.Proofs.Json.RoundTrip
import Tabletop.Proofs.Storage.Spelling
import Tabletop.Settings.Basic
import Tabletop.Storage.Outcome

/-!
# Stored values are read back

The JSON forms of configurations, requests, rolls and settings, and that a value is read from each
of its forms, whatever the order of the fields and whatever unknown ones stand beside them.

* `Mechanic.names`, `Criteria.names` — the names that stand for a mechanic or a criterion.
* `stored_values_read_back` — the result for all stored types.
-/

namespace Tabletop

open Json

/-! ## Forms -/

/-- The names that stand for a mechanic; the first is the one written. -/
def Mechanic.names : Mechanic → List String
  | .rollAndSum => ["roll_and_sum", "sum"]
  | .dicePool => ["dice_pool", "pool"]
  | .custom => ["custom"]

/-- The names that stand for a criterion; the first is the one written. -/
def Criteria.names : Criteria → List String
  | .greaterEqual => ["greater_equal", ">="]
  | .lessEqual => ["less_equal", "<="]
  | .equal => ["equal", "==", "="]

instance : JsonSpelling Mechanic where
  Spells m j := ∃ name ∈ m.names, j = .str name

instance : JsonSpelling Criteria where
  Spells c j := ∃ name ∈ c.names, j = .str name

instance : JsonSpelling Sign where
  Spells
    | .plus, j => j = .str "plus"
    | .minus, j => j = .str "minus"

instance : JsonSpelling BoundsPolicy where
  Spells
    | .reject, j => j = .str "reject"
    | .clamp, j => j = .str "clamp"

instance : JsonSpelling Config where
  Spells c := Record [
    ("mechanic", Spells c.mechanic),
    ("base_formula", Spells c.baseFormula),
    ("criteria", Spells c.criteria),
    ("target", Spells c.target),
    ("exploding", Spells c.exploding),
    ("explode_threshold", Spells c.explodeThreshold),
    ("difficulty", Spells c.difficulty),
    ("bounds", Spells c.bounds),
    ("explosion_cap", Spells c.explosionCap)]

/-- The body of dice is a record; the choice around it has one field. -/
instance : JsonSpelling TermKind where
  Spells
    | .dice count sides, j => ∃ body, j = .obj [("dice", body)] ∧
        Record [("count", Spells count), ("sides", Spells sides)] body
    | .constant value, j => ∃ body, j = .obj [("constant", body)] ∧ Spells value body

instance : JsonSpelling Origin where
  Spells
    | .base, j => j = .str "base"
    | .modifier index, j => ∃ body, j = .obj [("modifier", body)] ∧ Spells index body
    | .netModifier, j => j = .str "net_modifier"

instance : JsonSpelling Term where
  Spells t := Record [
    ("sign", Spells t.sign), ("kind", Spells t.kind), ("origin", Spells t.origin)]

instance : JsonSpelling Formula where
  Spells f := Record [("terms", Spells f.terms)]

instance : JsonSpelling ModifierValue where
  Spells
    | .integer amount, j => Spells amount j
    | .dice expression, j => Spells expression j

instance : JsonSpelling Modifier where
  Spells m := Record [("name", Spells m.name), ("value", Spells m.value)]

instance : JsonSpelling Request where
  Spells r := Record [
    ("formula", Spells r.formula),
    ("modifiers", Spells r.modifiers),
    ("target", Spells r.target),
    ("difficulty", Spells r.difficulty)]

instance : JsonSpelling RolledDie where
  Spells die := Record [("rolls", Spells die.rolls), ("capped", Spells die.capped)]

instance : JsonSpelling TermResult where
  Spells
    | .dice dice, j => ∃ body, j = .obj [("dice", body)] ∧ Spells dice body
    | .constant value, j => ∃ body, j = .obj [("constant", body)] ∧ Spells value body

instance : JsonSpelling RolledTerm where
  Spells t := Record [("term", Spells t.term), ("result", Spells t.result)]

instance : JsonSpelling Evaluation where
  Spells e := Record [
    ("total", Spells e.total), ("success", Spells e.success), ("against", Spells e.against)]

instance : JsonSpelling Warning where
  Spells
    | .explosionCapExceeded sides cap, j => ∃ body, j = .obj [("explosion_cap_exceeded", body)] ∧
        Record [("sides", Spells sides), ("cap", Spells cap)] body
    | .inertModifier name reason, j => ∃ body, j = .obj [("inert_modifier", body)] ∧
        Record [("name", Spells name), ("reason", Spells reason)] body

instance : JsonSpelling Outcome where
  Spells o := Record [
    ("formula", Spells o.formula),
    ("total", Spells o.total),
    ("success", Spells o.success),
    ("rolled_terms", Spells o.rolledTerms),
    ("description", Spells o.description),
    ("criticals", Spells o.criticals),
    ("fumbles", Spells o.fumbles),
    ("warnings", Spells o.warnings)]

instance : JsonSpelling Settings where
  Spells s := Record [
    ("mechanic", Spells s.mechanic),
    ("seed", Spells s.seed),
    ("log_filter", Spells s.logFilter)]

/-! ## Choices -/

instance : LawfulJson Mechanic where
  spells_of m := by cases m <;> exact ⟨_, List.mem_cons_self, rfl⟩
  as?_of_spells {m j} h := by
    obtain ⟨name, hname, rfl⟩ := h
    cases m <;> simp only [Mechanic.names, List.mem_cons, List.not_mem_nil, or_false] at hname
    · rcases hname with rfl | rfl <;> rfl
    · rcases hname with rfl | rfl <;> rfl
    · exact hname ▸ rfl

instance : LawfulJson Criteria where
  spells_of c := by cases c <;> exact ⟨_, List.mem_cons_self, rfl⟩
  as?_of_spells {c j} h := by
    obtain ⟨name, hname, rfl⟩ := h
    cases c <;> simp only [Criteria.names, List.mem_cons, List.not_mem_nil, or_false] at hname
    · rcases hname with rfl | rfl <;> rfl
    · rcases hname with rfl | rfl <;> rfl
    · rcases hname with rfl | rfl | rfl <;> rfl

instance : LawfulJson Sign where
  spells_of s := by cases s <;> rfl
  as?_of_spells {s j} h := by cases s <;> exact h ▸ rfl

instance : LawfulJson BoundsPolicy where
  spells_of p := by cases p <;> rfl
  as?_of_spells {p j} h := by cases p <;> exact h ▸ rfl

/-! ## Parts of records and choices -/

section Parts

variable {α β : Type} [JsonForm α] [JsonSpelling α] [LawfulJson α] {a : α} {j : Json}

theorem Json.required_of_spells (h : Spells a j) : required (some j) = some a :=
  as?_of_spells h

theorem Json.defaulting_of_spells (h : Spells a j) (preset : α) :
    defaulting preset (some j) = some a :=
  as?_of_spells h

theorem Json.carrying_of_spells (f : α → β) (h : Spells a j) :
    carrying f (some j) = some (f a) := by
  rw [carrying, Option.bind_some, as?_of_spells h, Option.map_some]

end Parts

/-! ## Stored types -/

instance : LawfulJson Config where
  spells_of c := record_of_forall₂ <| by simp [spells_of]
  as?_of_spells {c j} h := by
    obtain ⟨values, hrecord, hfields⟩ :=
      record?_of_record Config.fieldNames rfl (by decide) h true
    match values, hfields with
    | _, .cons hmechanic (.cons hbase (.cons hcriteria (.cons htarget (.cons hexploding (.cons
      hthreshold (.cons hdifficulty (.cons hbounds (.cons hcap .nil)))))))) =>
      simp [as?, JsonForm.read?, hrecord, defaulting_of_spells hmechanic,
        defaulting_of_spells hbase, defaulting_of_spells hcriteria, defaulting_of_spells htarget,
        defaulting_of_spells hexploding, defaulting_of_spells hthreshold,
        defaulting_of_spells hdifficulty, defaulting_of_spells hbounds, defaulting_of_spells hcap]

instance : LawfulJson Settings where
  spells_of s := record_of_forall₂ <| by simp [spells_of]
  as?_of_spells {s j} h := by
    obtain ⟨values, hrecord, hfields⟩ :=
      record?_of_record ["mechanic", "seed", "log_filter"] rfl (by decide) h true
    match values, hfields with
    | _, .cons hmechanic (.cons hseed (.cons hfilter .nil)) =>
      simp [as?, JsonForm.read?, hrecord, defaulting_of_spells hmechanic,
        defaulting_of_spells hseed, defaulting_of_spells hfilter]

instance : LawfulJson TermKind where
  spells_of
    | .dice _ _ => ⟨_, rfl, record_of_forall₂ <| by simp [spells_of]⟩
    | .constant _ => ⟨_, rfl, spells_of _⟩
  as?_of_spells {kind j} h := by
    cases kind with
    | dice count sides =>
      obtain ⟨body, rfl, hbody⟩ := h
      obtain ⟨values, hrecord, hfields⟩ :=
        record?_of_record ["count", "sides"] rfl (by decide) hbody false
      have hread : (Json.obj [("dice", body)]).as? TermKind = TermKind.diceOfJson? body := rfl
      match values, hfields with
      | _, .cons hcount (.cons hsides .nil) =>
        simp [hread, TermKind.diceOfJson?, hrecord, required_of_spells hcount,
          required_of_spells hsides]
    | constant value =>
      obtain ⟨body, rfl, hbody⟩ := h
      exact carrying_of_spells TermKind.constant hbody

instance : LawfulJson Origin where
  spells_of
    | .base => rfl
    | .modifier _ => ⟨_, rfl, spells_of _⟩
    | .netModifier => rfl
  as?_of_spells {origin j} h := by
    cases origin with
    | base => exact h ▸ rfl
    | modifier index =>
      obtain ⟨body, rfl, hbody⟩ := h
      exact carrying_of_spells Origin.modifier hbody
    | netModifier => exact h ▸ rfl

instance : LawfulJson Term where
  spells_of t := record_of_forall₂ <| by simp [spells_of]
  as?_of_spells {t j} h := by
    obtain ⟨values, hrecord, hfields⟩ :=
      record?_of_record ["sign", "kind", "origin"] rfl (by decide) h false
    match values, hfields with
    | _, .cons hsign (.cons hkind (.cons horigin .nil)) =>
      simp [as?, JsonForm.read?, hrecord, required_of_spells hsign, required_of_spells hkind,
        required_of_spells horigin]

instance : LawfulJson Formula where
  spells_of f := record_of_forall₂ <| by simp [spells_of]
  as?_of_spells {f j} h := by
    obtain ⟨values, hrecord, hfields⟩ :=
      record?_of_record ["terms"] rfl (by decide) h false
    match values, hfields with
    | _, .cons hterms .nil =>
      simp [as?, JsonForm.read?, hrecord, required_of_spells hterms]

instance : LawfulJson ModifierValue where
  spells_of
    | .integer _ => rfl
    | .dice _ => rfl
  as?_of_spells {value j} h := by
    cases value with
    | integer amount =>
      have hread : (Json.int amount.toInt).as? ModifierValue =
        (Amount.ofInt? amount.toInt).map .integer := rfl
      rw [show j = .int amount.toInt from h, hread, Amount.ofInt?_toInt, Option.map_some]
    | dice expression => exact h ▸ rfl

instance : LawfulJson Modifier where
  spells_of m := record_of_forall₂ <| by simp [spells_of]
  as?_of_spells {m j} h := by
    obtain ⟨values, hrecord, hfields⟩ :=
      record?_of_record ["name", "value"] rfl (by decide) h false
    match values, hfields with
    | _, .cons hname (.cons hvalue .nil) =>
      simp [as?, JsonForm.read?, hrecord, required_of_spells hname, required_of_spells hvalue]

instance : LawfulJson Request where
  spells_of r := record_of_forall₂ <| by simp [spells_of]
  as?_of_spells {r j} h := by
    obtain ⟨values, hrecord, hfields⟩ :=
      record?_of_record ["formula", "modifiers", "target", "difficulty"] rfl (by decide)
        h true
    match values, hfields with
    | _, .cons hformula (.cons hmodifiers (.cons htarget (.cons hdifficulty .nil))) =>
      simp [as?, JsonForm.read?, hrecord, defaulting_of_spells hformula,
        defaulting_of_spells hmodifiers, defaulting_of_spells htarget,
        defaulting_of_spells hdifficulty]

instance : LawfulJson RolledDie where
  spells_of die := record_of_forall₂ <| by simp [spells_of]
  as?_of_spells {die j} h := by
    obtain ⟨values, hrecord, hfields⟩ :=
      record?_of_record ["rolls", "capped"] rfl (by decide) h false
    match values, hfields with
    | _, .cons hrolls (.cons hcapped .nil) =>
      simp [as?, JsonForm.read?, hrecord, required_of_spells hrolls, required_of_spells hcapped]

instance : LawfulJson TermResult where
  spells_of
    | .dice _ => ⟨_, rfl, spells_of _⟩
    | .constant _ => ⟨_, rfl, spells_of _⟩
  as?_of_spells {result j} h := by
    cases result with
    | dice dice =>
      obtain ⟨body, rfl, hbody⟩ := h
      exact carrying_of_spells TermResult.dice hbody
    | constant value =>
      obtain ⟨body, rfl, hbody⟩ := h
      exact carrying_of_spells TermResult.constant hbody

instance : LawfulJson RolledTerm where
  spells_of t := record_of_forall₂ <| by simp [spells_of]
  as?_of_spells {t j} h := by
    obtain ⟨values, hrecord, hfields⟩ :=
      record?_of_record ["term", "result"] rfl (by decide) h false
    match values, hfields with
    | _, .cons hterm (.cons hresult .nil) =>
      simp [as?, JsonForm.read?, hrecord, required_of_spells hterm, required_of_spells hresult]

instance : LawfulJson Evaluation where
  spells_of e := record_of_forall₂ <| by simp [spells_of]
  as?_of_spells {e j} h := by
    obtain ⟨values, hrecord, hfields⟩ :=
      record?_of_record ["total", "success", "against"] rfl (by decide) h false
    match values, hfields with
    | _, .cons htotal (.cons hsuccess (.cons hagainst .nil)) =>
      simp [as?, JsonForm.read?, hrecord, required_of_spells htotal, defaulting_of_spells hsuccess,
        defaulting_of_spells hagainst]

instance : LawfulJson Warning where
  spells_of
    | .explosionCapExceeded _ _ => ⟨_, rfl, record_of_forall₂ <| by simp [spells_of]⟩
    | .inertModifier _ _ => ⟨_, rfl, record_of_forall₂ <| by simp [spells_of]⟩
  as?_of_spells {warning j} h := by
    cases warning with
    | explosionCapExceeded sides cap =>
      obtain ⟨body, rfl, hbody⟩ := h
      obtain ⟨values, hrecord, hfields⟩ :=
        record?_of_record ["sides", "cap"] rfl (by decide) hbody false
      have hread : (Json.obj [("explosion_cap_exceeded", body)]).as? Warning =
        Warning.capOfJson? body := rfl
      match values, hfields with
      | _, .cons hsides (.cons hcap .nil) =>
        simp [hread, Warning.capOfJson?, hrecord, required_of_spells hsides,
          required_of_spells hcap]
    | inertModifier name reason =>
      obtain ⟨body, rfl, hbody⟩ := h
      obtain ⟨values, hrecord, hfields⟩ :=
        record?_of_record ["name", "reason"] rfl (by decide) hbody false
      have hread : (Json.obj [("inert_modifier", body)]).as? Warning =
        Warning.inertOfJson? body := rfl
      match values, hfields with
      | _, .cons hname (.cons hreason .nil) =>
        simp [hread, Warning.inertOfJson?, hrecord, required_of_spells hname,
          required_of_spells hreason]

instance : LawfulJson Outcome where
  spells_of o := record_of_forall₂ <| by simp [spells_of]
  as?_of_spells {o j} h := by
    obtain ⟨values, hrecord, hfields⟩ :=
      record?_of_record Outcome.fieldNames rfl (by decide) h false
    match values, hfields with
    | _, .cons hformula (.cons htotal (.cons hsuccess (.cons hterms (.cons hdescription (.cons
      hcriticals (.cons hfumbles (.cons hwarnings .nil))))))) =>
      simp [as?, JsonForm.read?, hrecord, required_of_spells hformula, required_of_spells htotal,
        defaulting_of_spells hsuccess, required_of_spells hterms, required_of_spells hdescription,
        required_of_spells hcriticals, required_of_spells hfumbles, required_of_spells hwarnings]

/-! ## Texts -/

/-- A type whose values are written without numbers that are not whole. -/
class PrintableForm (α : Type) [JsonForm α] : Prop where
  printable_of : ∀ a : α, (of a).Printable

export PrintableForm (printable_of)

instance : PrintableForm Bool := ⟨fun _ => trivial⟩

instance : PrintableForm String := ⟨fun _ => trivial⟩

instance : PrintableForm Amount where
  printable_of a := by
    have hbounds := a.toInt_bounds
    unfold Amount.least Amount.greatest at hbounds
    exact ⟨hbounds.1, by omega⟩

instance : PrintableForm UInt32 where
  printable_of n := by
    have hsize := n.toNat_lt
    exact ⟨by omega, by omega⟩

instance {α : Type} [JsonForm α] [PrintableForm α] : PrintableForm (Option α) where
  printable_of
    | some a => printable_of a
    | none => trivial

instance : PrintableForm Mechanic := ⟨fun m => by cases m <;> trivial⟩

instance : PrintableForm Criteria := ⟨fun c => by cases c <;> trivial⟩

instance : PrintableForm BoundsPolicy := ⟨fun p => by cases p <;> trivial⟩

instance : PrintableForm Config where
  printable_of c := ⟨printable_of c.mechanic, printable_of c.baseFormula, printable_of c.criteria,
    printable_of c.target, printable_of c.exploding, printable_of c.explodeThreshold,
    printable_of c.difficulty, printable_of c.bounds, printable_of c.explosionCap, trivial⟩

/-! ## The result -/

/-- Every value of a type is read from what is written for it, which is one of its forms, and from
each of its other forms. -/
def ReadsBack (α : Type) [JsonForm α] [JsonSpelling α] : Prop :=
  ∀ a : α, (of a).as? α = some a ∧ Spells a (of a) ∧ ∀ j, Spells a j → j.as? α = some a

theorem readsBack (α : Type) [JsonForm α] [JsonSpelling α] [LawfulJson α] : ReadsBack α :=
  fun a => ⟨as?_of_spells (spells_of a), spells_of a, fun _ => as?_of_spells⟩

/-- **Stored values are read back.** A value of a stored type is read from what is written for it,
and from the same with the fields of any record in another order and unknown fields among them. An
expression that looks like a number is not read as one, and a configuration that has been read from
whatever form is read again from its own text. -/
theorem stored_values_read_back :
    (ReadsBack Config ∧ ReadsBack Request ∧ ReadsBack Modifier ∧ ReadsBack Term ∧
      ReadsBack Formula ∧ ReadsBack RolledTerm ∧ ReadsBack Evaluation ∧ ReadsBack Warning ∧
      ReadsBack Outcome ∧ ReadsBack Settings) ∧
    (∀ (name expression : String) (j : Json), Spells (Modifier.mk name (.dice expression)) j →
      ∀ other amount, j.as? Modifier ≠ some ⟨other, .integer amount⟩) ∧
    ∀ (j : Json) (c : Config), j.as? Config = some c →
      (read? (of c).compact).bind (as? Config) = some c ∧
      (read? (of c).pretty).bind (as? Config) = some c := by
  refine ⟨⟨readsBack _, readsBack _, readsBack _, readsBack _, readsBack _, readsBack _,
    readsBack _, readsBack _, readsBack _, readsBack _⟩, ?_, fun j c _ => ?_⟩
  · intro name expression j h other amount hinteger
    rw [as?_of_spells h] at hinteger
    cases hinteger
  · rw [read?_compact (printable_of c), read?_pretty (printable_of c)]
    exact ⟨as?_of_spells (spells_of c), as?_of_spells (spells_of c)⟩

/-- A modifier with its fields exchanged and an unknown one between them, and a configuration given
by short names. -/
theorem stored_values_read_back_short :
    (Json.obj [("value", .str "5"), ("note", .null), ("name", .str "bless")]).as? Modifier =
      some ⟨"bless", .dice "5"⟩ ∧
    (read? (of { mechanic := .dicePool, criteria := .lessEqual : Config }).compact).bind
      (as? Config) = some { mechanic := .dicePool, criteria := .lessEqual } := by
  have hrecord : Record [("name", Spells "bless"), ("value", Spells (ModifierValue.dice "5"))]
      (.obj [("name", .str "bless"), ("value", .str "5")]) :=
    record_of_forall₂ (.cons ⟨rfl, rfl⟩ (.cons ⟨rfl, rfl⟩ .nil))
  have hspells : Spells (Modifier.mk "bless" (.dice "5"))
      (.obj [("value", .str "5"), ("note", .null), ("name", .str "bless")]) :=
    hrecord.rearranged [("note", .null)]
      (@List.perm_append_comm _ [_, _] [_]) (by decide)
  have hconfig : (Json.obj [("criteria", .str "<="), ("mechanic", .str "pool")]).as? Config =
      some { mechanic := .dicePool, criteria := .lessEqual } := by decide
  exact ⟨(stored_values_read_back.1.2.2.1 ⟨"bless", .dice "5"⟩).2.2 _ hspells,
    (stored_values_read_back.2.2 _ _ hconfig).1⟩

end Tabletop
