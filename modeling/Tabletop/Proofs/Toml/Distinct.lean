import Tabletop.Proofs.Settings.Distinct
import Tabletop.Toml.Reader

/-!
# Keys of a TOML text stand once

A text that sets a key twice is refused, and the tables that assignments and headers fill repeat no
key on any way they are filled.

* `Toml.Entries.Distinct` — no finished table repeats a key.
* `Toml.Entries.Distinct.alter?` — a change at the end of a path keeps that.
* `Toml.distinctReads` — it holds for the values that are read.
* `Toml.distinct_of_read?` — it holds for the value of a text.
-/

namespace Tabletop.Toml

/-! ## Tables -/

section Entries

variable {name : String} {node : Node} {entries : Entries}

theorem get?_fieldsOf (name : String) (entries : Entries) :
    Fields.get? name (fieldsOf entries) = (Fields.get? name entries).map Node.toJson := by
  induction entries with
  | nil => rfl
  | cons entry rest ih =>
    obtain ⟨n, node⟩ := entry
    rw [fieldsOf, Fields.get?, Fields.get?]
    split
    · rfl
    · exact ih

theorem fieldsOf_set (name : String) (node : Node) (entries : Entries) :
    fieldsOf (Fields.set name node entries) = Fields.set name node.toJson (fieldsOf entries) := by
  induction entries with
  | nil => rfl
  | cons entry rest ih =>
    obtain ⟨n, old⟩ := entry
    rw [fieldsOf, Fields.set, Fields.set]
    split
    · rfl
    · rw [fieldsOf, ih]

/-- Whether no finished table repeats a key. -/
def Entries.Distinct (entries : Entries) : Prop :=
  entries.toJson.Distinct

theorem Entries.distinct_nil : Entries.Distinct [] :=
  Json.distinct_nil

theorem Entries.Distinct.get? (h : entries.Distinct)
    (hnode : Fields.get? name entries = some node) : node.toJson.Distinct := by
  have hfield : Fields.get? name (fieldsOf entries) = some node.toJson := by
    rw [get?_fieldsOf, hnode, Option.map_some]
  exact Json.Distinct.get? h hfield

theorem Entries.Distinct.set (h : entries.Distinct) (hnode : node.toJson.Distinct) (name : String) :
    Entries.Distinct (Fields.set name node entries) := by
  rw [Entries.Distinct, Entries.toJson, fieldsOf_set]
  exact Json.Distinct.set h hnode name

theorem distinct_table {origin : Origin} :
    (Node.table origin entries).toJson.Distinct ↔ entries.Distinct := by
  rw [Node.toJson]
  exact Iff.rfl

theorem distinct_tables {finished : List Json} : (Node.tables finished entries).toJson.Distinct ↔
    (∀ table ∈ finished, table.Distinct) ∧ entries.Distinct := by
  rw [Node.toJson, Json.Distinct, Json.distinctItems_iff, List.forall_mem_append,
    List.forall_mem_singleton]
  exact Iff.rfl

/-- Changing the table at the end of a path repeats no key when the change does not. -/
theorem Entries.Distinct.alter? {made : Origin} {change : Origin → Entries → Option Entries}
    (hchange : ∀ origin inner changed, Entries.Distinct inner → change origin inner = some changed →
      Entries.Distinct changed) (path : List String) {origin : Origin} {changed : Entries}
    (h : entries.Distinct) (hchanged : entries.alter? made change path origin = some changed) :
    changed.Distinct := by
  induction path generalizing origin entries changed with
  | nil => exact hchange origin entries changed h hchanged
  | cons name path ih =>
    rw [Entries.alter?] at hchanged
    split at hchanged
    · obtain ⟨inner, hinner, hset⟩ := Option.bind_eq_some_iff.mp hchanged
      cases hset
      exact h.set (distinct_table.mpr (ih Entries.distinct_nil hinner)) name
    · cases hchanged
    · next content hnode =>
      split at hchanged
      · cases hchanged
      · obtain ⟨inner, hinner, hset⟩ := Option.bind_eq_some_iff.mp hchanged
        cases hset
        exact h.set (distinct_table.mpr (ih (distinct_table.mp (h.get? hnode)) hinner)) name
    · next finished last hnode =>
      obtain ⟨hfinished, hlast⟩ := distinct_tables.mp (h.get? hnode)
      obtain ⟨inner, hinner, hset⟩ := Option.bind_eq_some_iff.mp hchanged
      cases hset
      exact h.set (distinct_tables.mpr ⟨hfinished, ih hlast hinner⟩) name

theorem Entries.Distinct.assign? {path : List String} {name : String} {value : Json}
    {changed : Entries} (h : entries.Distinct) (hvalue : value.Distinct)
    (hchanged : entries.assign? path name value = some changed) : changed.Distinct := by
  refine Entries.Distinct.alter? (fun origin inner changed hinner hinsert => ?_) path h hchanged
  split at hinsert
  · rw [insert?] at hinsert
    split at hinsert
    · cases hinsert
      exact hinner.set (by rwa [Node.toJson]) name
    · cases hinsert
  · cases hinsert

theorem Entries.Distinct.open? {path : List String} {name : String} {changed : Entries}
    (h : entries.Distinct) (hchanged : entries.open? path name = some changed) :
    changed.Distinct := by
  refine Entries.Distinct.alter? (fun origin inner changed hinner hopen => ?_) path h hchanged
  split at hopen
  · cases hopen
    exact hinner.set (distinct_table.mpr distinct_nil) name
  · next content hnode =>
    cases hopen
    exact hinner.set (distinct_table.mpr (distinct_table.mp (hinner.get? hnode))) name
  · cases hopen

theorem Entries.Distinct.append? {path : List String} {name : String} {changed : Entries}
    (h : entries.Distinct) (hchanged : entries.append? path name = some changed) :
    changed.Distinct := by
  refine Entries.Distinct.alter? (fun origin inner changed hinner happend => ?_) path h hchanged
  split at happend
  · cases happend
    exact hinner.set (distinct_tables.mpr ⟨List.forall_mem_nil _, distinct_nil⟩) name
  · next finished last hnode =>
    obtain ⟨hfinished, hlast⟩ := distinct_tables.mp (hinner.get? hnode)
    cases happend
    refine hinner.set (distinct_tables.mpr ⟨?_, distinct_nil⟩) name
    exact List.forall_mem_append.mpr ⟨hfinished, List.forall_mem_singleton.mpr hlast⟩
  · cases happend

end Entries

/-! ## Values -/

/-- What every step of a fold keeps holds at its end. -/
theorem foldlM_keeps {α β : Type} {step : β → α → Option β} {P : β → Prop} {items : List α}
    (hstep : ∀ item ∈ items, ∀ state next, P state → step state item = some next → P next)
    {start last : β} (hstart : P start) (hlast : items.foldlM step start = some last) : P last := by
  induction items generalizing start with
  | nil =>
    cases hlast
    exact hstart
  | cons item rest ih =>
    obtain ⟨hitem, hrest⟩ := List.forall_mem_cons.mp hstep
    rw [List.foldlM_cons] at hlast
    obtain ⟨next, hnext, hlast⟩ := Option.bind_eq_some_iff.mp hlast
    exact ih hrest (hitem start next hstart hnext) hlast

theorem distinct_of_number? {cs : List Char} {value : Json} (h : number? cs = some value) :
    value.Distinct := by
  unfold number? at h
  split at h
  · obtain ⟨a, -, rfl⟩ := Option.map_eq_some_iff.mp h
    trivial
  · split at h <;> split at h <;> cases h <;> trivial

theorem distinct_of_word? {cs : List Char} {value : Json} (h : word? cs = some value) :
    value.Distinct := by
  unfold word? at h
  split at h
  · cases h
    trivial
  · cases h
    trivial
  · split at h
    · cases h
      exact Json.distinct_nil
    · exact distinct_of_number? h

theorem distinct_of_plain? {cs rest : List Char} {value : Json}
    (h : plain? cs = some (value, rest)) : value.Distinct := by
  unfold plain? at h
  obtain ⟨word, hword, h⟩ := Option.bind_eq_some_iff.mp h
  have hvalue : value = word := by
    split at h
    · dsimp only at h
      split at h
      · split at h
        · cases h
          rfl
        · cases h
      · cases h
        rfl
    · cases h
      rfl
  exact hvalue ▸ distinct_of_word? hword

theorem distinct_of_inlineTable? {assignments : List (Key × Json)} {value : Json}
    (hassignments : ∀ assignment ∈ assignments, assignment.2.Distinct)
    (h : inlineTable? assignments = some value) : value.Distinct := by
  obtain ⟨entries, hentries, rfl⟩ := Option.map_eq_some_iff.mp h
  exact foldlM_keeps (P := Entries.Distinct)
    (fun assignment hmem _ _ hstate hnext => hstate.assign? (hassignments assignment hmem) hnext)
    Entries.distinct_nil hentries

/-- The values read with some calls repeat no key. -/
structure DistinctReads (calls : Nat) : Prop where
  value : ∀ {nesting cs value rest}, valueOf? calls nesting cs = some (value, rest) →
    value.Distinct
  items : ∀ {nesting cs items rest}, itemsOf? calls nesting cs = some (items, rest) →
    ∀ item ∈ items, item.Distinct
  assignments : ∀ {nesting cs assignments rest},
    assignmentsOf? calls nesting cs = some (assignments, rest) →
    ∀ assignment ∈ assignments, assignment.2.Distinct

section Step

variable {calls : Nat} (ih : DistinctReads calls) {nesting : Nat} {cs rest : List Char}

include ih

theorem DistinctReads.value_succ {value : Json}
    (h : valueOf? (calls + 1) nesting cs = some (value, rest)) : value.Distinct := by
  unfold valueOf? at h
  split at h
  · cases h
  · obtain ⟨⟨items, _⟩, hitems, hvalue⟩ := Option.map_eq_some_iff.mp h
    cases hvalue
    exact Json.distinctItems_iff.mpr (ih.items hitems)
  · cases h
  · split at h
    · cases h
      exact Json.distinct_nil
    · obtain ⟨⟨assignments, _⟩, hassignments, h⟩ := Option.bind_eq_some_iff.mp h
      obtain ⟨table, htable, hvalue⟩ := Option.bind_eq_some_iff.mp h
      cases hvalue
      exact distinct_of_inlineTable? (ih.assignments hassignments) htable
  · obtain ⟨_, -, hvalue⟩ := Option.map_eq_some_iff.mp h
    cases hvalue
    trivial
  · obtain ⟨_, -, hvalue⟩ := Option.map_eq_some_iff.mp h
    cases hvalue
    trivial
  · exact distinct_of_plain? h

theorem DistinctReads.items_succ {items : List Json}
    (h : itemsOf? (calls + 1) nesting cs = some (items, rest)) :
    ∀ item ∈ items, item.Distinct := by
  unfold itemsOf? at h
  split at h
  · cases h
    nofun
  · obtain ⟨⟨item, _⟩, hitem, h⟩ := Option.bind_eq_some_iff.mp h
    dsimp only at h
    split at h
    · obtain ⟨⟨others, _⟩, hothers, h⟩ := Option.bind_eq_some_iff.mp h
      cases h
      exact List.forall_mem_cons.mpr ⟨ih.value hitem, ih.items hothers⟩
    · cases h
      exact List.forall_mem_singleton.mpr (ih.value hitem)
    · cases h

theorem DistinctReads.assignments_succ {assignments : List (Key × Json)}
    (h : assignmentsOf? (calls + 1) nesting cs = some (assignments, rest)) :
    ∀ assignment ∈ assignments, assignment.2.Distinct := by
  unfold assignmentsOf? at h
  obtain ⟨⟨key, _⟩, -, h⟩ := Option.bind_eq_some_iff.mp h
  dsimp only at h
  split at h
  · obtain ⟨⟨value, _⟩, hvalue, h⟩ := Option.bind_eq_some_iff.mp h
    dsimp only at h
    split at h
    · obtain ⟨⟨others, _⟩, hothers, h⟩ := Option.bind_eq_some_iff.mp h
      cases h
      exact List.forall_mem_cons.mpr ⟨ih.value hvalue, ih.assignments hothers⟩
    · cases h
      exact List.forall_mem_singleton.mpr (ih.value hvalue)
    · cases h
  · cases h

end Step

theorem distinctReads (calls : Nat) : DistinctReads calls := by
  induction calls with
  | zero => exact ⟨nofun, nofun, nofun⟩
  | succ calls ih => exact ⟨ih.value_succ, ih.items_succ, ih.assignments_succ⟩

/-! ## Statements -/

/-- Whether the value that a statement sets repeats no key. -/
def Statement.Distinct : Statement → Prop
  | .assignment _ value => value.Distinct
  | _ => True

theorem distinct_of_statement? {cs rest : List Char} {statement : Statement}
    (h : statement? cs = some (statement, rest)) : statement.Distinct := by
  unfold statement? at h
  split at h
  · obtain ⟨_, -, h⟩ := Option.bind_eq_some_iff.mp h
    dsimp only at h
    split at h <;> cases h
    trivial
  · obtain ⟨_, -, h⟩ := Option.bind_eq_some_iff.mp h
    dsimp only at h
    split at h <;> cases h
    trivial
  · obtain ⟨_, -, h⟩ := Option.bind_eq_some_iff.mp h
    dsimp only at h
    split at h
    · obtain ⟨_, hvalue, h⟩ := Option.bind_eq_some_iff.mp h
      cases h
      exact (distinctReads _).value hvalue
    · cases h

theorem distinct_of_statementsOf? {lines : Nat} {cs : List Char} {statements : List Statement}
    (h : statementsOf? lines cs = some statements) :
    ∀ statement ∈ statements, statement.Distinct := by
  induction lines generalizing cs statements with
  | zero =>
    cases cs with
    | nil =>
      cases h
      nofun
    | cons c cs => cases h
  | succ lines ih =>
    cases cs with
    | nil =>
      cases h
      nofun
    | cons c cs =>
      unfold statementsOf? at h
      dsimp only at h
      split at h
      · exact ih h
      · obtain ⟨⟨statement, _⟩, hstatement, h⟩ := Option.bind_eq_some_iff.mp h
        obtain ⟨_, -, h⟩ := Option.bind_eq_some_iff.mp h
        obtain ⟨others, hothers, h⟩ := Option.bind_eq_some_iff.mp h
        cases h
        exact List.forall_mem_cons.mpr ⟨distinct_of_statement? hstatement, ih hothers⟩

theorem Document.distinct_of_add? {d next : Document} {statement : Statement}
    (hstatement : statement.Distinct) (hd : d.root.Distinct)
    (h : d.add? statement = some next) : next.root.Distinct := by
  cases statement with
  | header key =>
    obtain ⟨root, hroot, h⟩ := Option.bind_eq_some_iff.mp h
    cases h
    exact hd.open? hroot
  | arrayHeader key =>
    obtain ⟨root, hroot, h⟩ := Option.bind_eq_some_iff.mp h
    cases h
    exact hd.append? hroot
  | assignment key value =>
    obtain ⟨root, hroot, h⟩ := Option.bind_eq_some_iff.mp h
    cases h
    exact hd.alter? (fun _ _ _ hinner => hinner.assign? hstatement) d.current hroot

/-- The value of a file is a table. -/
theorem exists_fields_of_read? {text : String} {j : Json} (h : read? text = some j) :
    ∃ fields, j = .obj fields := by
  obtain ⟨statements, -, h⟩ := Option.bind_eq_some_iff.mp h
  obtain ⟨document, -, h⟩ := Option.bind_eq_some_iff.mp h
  cases h
  exact ⟨fieldsOf document.root, rfl⟩

/-- The value of a file repeats no key. -/
theorem distinct_of_read? {text : String} {j : Json} (h : read? text = some j) : j.Distinct := by
  obtain ⟨statements, hstatements, h⟩ := Option.bind_eq_some_iff.mp h
  obtain ⟨document, hdocument, h⟩ := Option.bind_eq_some_iff.mp h
  cases h
  have hdistinct : ∀ statement ∈ statements, statement.Distinct := by
    unfold statements? at hstatements
    split at hstatements <;> exact distinct_of_statementsOf? hstatements
  exact foldlM_keeps (P := fun d => d.root.Distinct)
    (fun statement hmem _ _ hd hnext =>
      Document.distinct_of_add? (hdistinct statement hmem) hd hnext)
    Entries.distinct_nil hdocument

end Tabletop.Toml
