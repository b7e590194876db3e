import Mathlib.Data.List.Forall2
import Tabletop.Proofs.Formula.RoundTrip
import Tabletop.Proofs.Groups
import Tabletop.Proofs.Modifier.Kinds
import Tabletop.Proofs.Origins
import Tabletop.Proofs.Outcome

/-!
# Inert modifiers

A dice expression that cannot be read adds nothing to a roll. Without such modifiers a request rolls
the same dice to the same result; what is told differs by one warning and one part of the line for
each of them.

* `Modifier.readable` — a list of modifiers without the inert ones.
* `Modifier.place`, `Modifier.renumber` — where a modifier stands once the inert ones are gone.
* `Formula.combineWith_readable` — the combined formula, its origins renumbered.
* `Modifier.Woven` — the parts of the line of all modifiers, from those of the readable ones.
* `resolve_withoutInert` — both requests side by side.
-/

namespace Tabletop

namespace Modifier

/-- The modifiers without the inert ones. -/
def readable (policy : BoundsPolicy) (modifiers : List Modifier) : List Modifier :=
  modifiers.filter fun m => !m.isInert policy

/-- The place of a modifier once the inert ones are gone: how many in front of it stay. -/
def place (policy : BoundsPolicy) (modifiers : List Modifier) (index : Nat) : Nat :=
  (readable policy (modifiers.take index)).length

/-- The origin of a term once the inert modifiers are gone. -/
def renumber (policy : BoundsPolicy) (modifiers : List Modifier) : Origin → Origin
  | .modifier index => .modifier (place policy modifiers index)
  | .base => .base
  | .netModifier => .netModifier

variable (policy : BoundsPolicy)

theorem readable_cons_of_inert {m : Modifier} (h : m.isInert policy = true)
    (rest : List Modifier) : readable policy (m :: rest) = readable policy rest := by
  rw [readable, List.filter_cons_of_neg (by simp [h]), readable]

theorem readable_cons {m : Modifier} (h : m.isInert policy = false) (rest : List Modifier) :
    readable policy (m :: rest) = m :: readable policy rest := by
  rw [readable, List.filter_cons_of_pos (by simp [h]), readable]

theorem readable_append (before rest : List Modifier) :
    readable policy (before ++ rest) = readable policy before ++ readable policy rest :=
  List.filter_append ..

theorem readable_concat_of_inert {m : Modifier} (h : m.isInert policy = true)
    (before : List Modifier) : readable policy (before ++ [m]) = readable policy before := by
  rw [readable_append, readable_cons_of_inert policy h]
  exact List.append_nil _

theorem length_readable_concat {m : Modifier} (h : m.isInert policy = false)
    (before : List Modifier) :
    (readable policy (before ++ [m])).length = (readable policy before).length + 1 := by
  rw [readable_append, readable_cons policy h, List.length_append]
  rfl

theorem place_append_length (before rest : List Modifier) :
    place policy (before ++ rest) before.length = (readable policy before).length := by
  rw [place, List.take_left]

theorem keepsBase_renumber (modifiers : List Modifier) :
    Origin.KeepsBase (renumber policy modifiers) := by
  intro o
  cases o <;> simp [renumber]

/-! ## The combined formula -/

/-- Without inert modifiers the whole numbers are the same. -/
theorem filterMap_integer?_readable (modifiers : List Modifier) :
    (readable policy modifiers).filterMap integer? = modifiers.filterMap integer? := by
  induction modifiers with
  | nil => rfl
  | cons m rest ih =>
    cases hm : m.isInert policy with
    | true =>
      obtain ⟨expression, -, hvalue, -⟩ := isInert_iff.mp hm
      rw [readable_cons_of_inert policy hm, ih,
        List.filterMap_cons_none (integer?_of_dice hvalue)]
    | false => rw [readable_cons policy hm, List.filterMap_cons, List.filterMap_cons, ih]

theorem netTerms_readable (modifiers : List Modifier) :
    netTerms (readable policy modifiers) = netTerms modifiers := by
  rw [netTerms, net?, filterMap_integer?_readable, netTerms, net?]

theorem map_mapOrigin_addedTerms {g : Origin → Origin} {index place : Nat}
    (h : g (.modifier index) = .modifier place) (m : Modifier) :
    (m.addedTerms policy index).map (Term.mapOrigin g) = m.addedTerms policy place := by
  cases m.kind policy with
  | integer amount hvalue => rw [addedTerms_of_integer hvalue, addedTerms_of_integer hvalue,
      List.map_nil]
  | readable expression f hvalue hread =>
    rw [addedTerms_of_readable hvalue hread, addedTerms_of_readable hvalue hread, List.map_map,
      ← h]
    rfl
  | inert expression e hvalue hread =>
    rw [addedTerms_of_inert hvalue hread, addedTerms_of_inert hvalue hread, List.map_nil]

/-- The terms of the modifiers behind `before`, renumbered. -/
theorem map_renumber_addedFrom (before rest : List Modifier) :
    (addedFrom policy before.length rest).map
        (Term.mapOrigin (renumber policy (before ++ rest))) =
      addedFrom policy (readable policy before).length (readable policy rest) := by
  -- the induction moves one modifier after the other in front
  induction rest generalizing before with
  | nil => rfl
  | cons m rest ih =>
    have ih := ih (before ++ [m])
    rw [List.append_assoc, List.singleton_append, List.length_append, List.length_singleton] at ih
    rw [addedFrom_cons, List.map_append, ih]
    cases hm : m.isInert policy with
    | true =>
      obtain ⟨expression, e, hvalue, hread⟩ := isInert_iff.mp hm
      rw [addedTerms_of_inert hvalue hread, readable_concat_of_inert policy hm,
        readable_cons_of_inert policy hm, List.map_nil, List.nil_append]
    | false =>
      have hplace : renumber policy (before ++ m :: rest) (.modifier before.length) =
          .modifier (readable policy before).length := by
        rw [renumber, place_append_length]
      rw [map_mapOrigin_addedTerms policy hplace, length_readable_concat policy hm,
        readable_cons policy hm, addedFrom_cons]

end Modifier

/-- Other modifiers give the combined formula but for its origins, when what they add is the same
but for its origins and the net is the same. -/
theorem Formula.combineWith_eq_mapOrigin {policy : BoundsPolicy} {base : Formula}
    (hbase : ∀ t ∈ base.terms, t.origin = .base) {g : Origin → Origin} (hg : g .base = .base)
    (hgnet : g .netModifier = .netModifier) {modifiers others : List Modifier}
    (hadded : Modifier.addedFrom policy 0 others =
      (Modifier.addedFrom policy 0 modifiers).map (Term.mapOrigin g))
    (hnet : Modifier.netTerms others = Modifier.netTerms modifiers) :
    base.combineWith policy others = (base.combineWith policy modifiers).mapOrigin g := by
  have hkept : ∀ {terms : List Term} {o : Origin}, g o = o → (∀ t ∈ terms, t.origin = o) →
      terms.map (Term.mapOrigin g) = terms := by
    intro terms o ho hterms
    rw [List.map_congr_left fun t ht => Term.mapOrigin_of_eq (by rw [hterms t ht, ho]),
      List.map_id']
  rw [combineWith, hadded, hnet, mapOrigin, combineWith, List.map_append, List.map_append,
    hkept hg hbase, hkept hgnet fun t ht => Modifier.origin_of_mem_netTerms ht]

/-- **Without inert modifiers the combined formula is the same**, but for the numbers in its
origins. -/
theorem Formula.combineWith_readable (policy : BoundsPolicy) {base : Formula}
    (hbase : ∀ t ∈ base.terms, t.origin = .base) (modifiers : List Modifier) :
    base.combineWith policy (Modifier.readable policy modifiers) =
      (base.combineWith policy modifiers).mapOrigin (Modifier.renumber policy modifiers) :=
  combineWith_eq_mapOrigin hbase rfl rfl (Modifier.map_renumber_addedFrom policy [] modifiers).symm
    (Modifier.netTerms_readable policy modifiers)

/-! ## Origins of the added terms -/

/-- The number in an origin is the place of a modifier that is not inert. -/
theorem Formula.exists_of_mem_combineWith {policy : BoundsPolicy} {base : Formula}
    (hbase : ∀ t ∈ base.terms, t.origin = .base) {modifiers : List Modifier} {t : Term}
    (ht : t ∈ (base.combineWith policy modifiers).terms) {index : Nat}
    (h : t.origin = .modifier index) :
    ∃ m, modifiers[index]? = some m ∧ m.isInert policy = false := by
  rcases mem_combineWith.mp ht with ht | ⟨place, m, hm, ht⟩ | ht
  · rw [hbase t ht] at h
    cases h
  · obtain ⟨horigin, hinert⟩ := Modifier.origin_of_mem_addedTerms ht
    rw [horigin, Origin.modifier.injEq] at h
    subst h
    exact ⟨m, hm, hinert⟩
  · rw [Modifier.origin_of_mem_netTerms ht] at h
    cases h

/-! ## Places -/

namespace Modifier

variable {policy : BoundsPolicy} {modifiers : List Modifier} {index : Nat} {m : Modifier}

/-- A modifier that is not inert moves the places behind it on. -/
theorem place_lt (h : modifiers[index]? = some m) (hm : m.isInert policy = false) {later : Nat}
    (hlater : index < later) : place policy modifiers index < place policy modifiers later := by
  have hnext : place policy modifiers (index + 1) = place policy modifiers index + 1 := by
    rw [place, List.take_add_one, h, Option.toList_some, length_readable_concat policy hm, place]
  have hmono : place policy modifiers (index + 1) ≤ place policy modifiers later :=
    ((List.take_sublist_take_left hlater).filter _).length_le
  omega

/-- Modifiers that are not inert keep different places. -/
theorem place_inj (h : modifiers[index]? = some m) (hm : m.isInert policy = false) {other : Nat}
    {m' : Modifier} (h' : modifiers[other]? = some m') (hm' : m'.isInert policy = false)
    (hplace : place policy modifiers other = place policy modifiers index) : other = index := by
  rcases Nat.lt_trichotomy other index with hlt | heq | hgt
  · exact absurd hplace (Nat.ne_of_lt (place_lt h' hm' hlt))
  · exact heq
  · exact absurd hplace (Nat.ne_of_gt (place_lt h hm hgt))

/-- At its new place stands the same modifier. -/
theorem getElem?_place (h : modifiers[index]? = some m) (hm : m.isInert policy = false) :
    (readable policy modifiers)[place policy modifiers index]? = some m := by
  obtain ⟨hlt, hget⟩ := List.getElem?_eq_some_iff.mp h
  have hsplit : readable policy modifiers = readable policy (modifiers.take index) ++
      m :: readable policy (modifiers.drop (index + 1)) := by
    rw [← readable_cons policy hm, ← readable_append, ← hget, ← List.drop_eq_getElem_cons hlt,
      List.take_append_drop]
  rw [hsplit, place, List.getElem?_append_right (Nat.le_refl _), Nat.sub_self]
  rfl

/-- Renumbering keeps the terms of one modifier apart from those of all others. -/
theorem renumber_eq_iff (h : modifiers[index]? = some m) (hm : m.isInert policy = false)
    {o : Origin} (ho : ∀ i, o = .modifier i →
      ∃ m', modifiers[i]? = some m' ∧ m'.isInert policy = false) :
    renumber policy modifiers o = .modifier (place policy modifiers index) ↔
      o = .modifier index := by
  constructor
  · intro heq
    cases o with
    | base => cases heq
    | netModifier => cases heq
    | modifier i =>
      obtain ⟨m', h', hm'⟩ := ho i rfl
      rw [place_inj h hm h' hm' (Origin.modifier.inj heq)]
  · rintro rfl
    rfl

/-! ## The parts of the line -/

/-- The parts of the line that the modifiers have, and those that the readable ones have without
the others: an inert modifier has one more part, at its place. -/
inductive Woven (policy : BoundsPolicy) : List Modifier → List String → List String → Prop where
  /-- no modifiers -/
  | nil : Woven policy [] [] []
  /-- a modifier that is not inert has the same part -/
  | same {m : Modifier} {rest : List Modifier} {parts others : List String} (part : String) :
      m.isInert policy = false → Woven policy rest parts others →
      Woven policy (m :: rest) (part :: parts) (part :: others)
  /-- an inert modifier has a part of zero that names its expression -/
  | inert {m : Modifier} {rest : List Modifier} {parts others : List String}
      (expression : String) : m.isInert policy = true → m.value = .dice expression →
      Woven policy rest parts others →
      Woven policy (m :: rest)
        (("+0 " ++ m.name ++ " (invalid: " ++ expression ++ ")") :: parts) others

end Modifier

namespace ModifierShare

theorem text_inert (name expression : String) :
    (inert name expression).text = "+0 " ++ name ++ " (invalid: " ++ expression ++ ")" := by
  rw [← String.toList_inj, text, String.toList_ofList]
  simp only [amount, label, String.toList_append, List.append_assoc]
  rfl

/-- What an expression rolled is shown without its origins. -/
theorem text_rolled_mapOrigin (g : Origin → Origin) (name : String) (terms : List RolledTerm) :
    (rolled name (terms.map (RolledTerm.mapOrigin g))).text = (rolled name terms).text := by
  have hparts : termParts (terms.map (RolledTerm.mapOrigin g)) = termParts terms := by
    cases terms with
    | nil => rfl
    | cons t rest => exact congrArg (_ :: ·) List.map_map
  have hvalues : (terms.map (RolledTerm.mapOrigin g)).map RolledTerm.value =
      terms.map RolledTerm.value := List.map_map
  rw [text, text, amount, amount, label, label, hparts, hvalues]

/-- A modifier shows the same when the terms it rolled keep apart from all others. -/
theorem text_of_mapOrigin {g : Origin → Origin} {rolled : List RolledTerm} {index place : Nat}
    (h : ∀ t ∈ rolled, g t.term.origin = .modifier place ↔ t.term.origin = .modifier index)
    (m : Modifier) :
    (of (rolled.map (RolledTerm.mapOrigin g)) place m).text = (of rolled index m).text := by
  have hterms : (rolled.map (RolledTerm.mapOrigin g)).filter
        (fun t => t.term.origin = .modifier place) =
      (rolled.filter fun t => t.term.origin = .modifier index).map (RolledTerm.mapOrigin g) := by
    rw [List.filter_map]
    congr 1
    exact List.filter_congr fun t ht => decide_eq_decide.mpr (h t ht)
  rw [of, of]
  cases m.value with
  | integer amount => rfl
  | dice expression =>
    dsimp only
    rw [hterms]
    cases rolled.filter fun t => t.term.origin = .modifier index with
    | nil => rfl
    | cons t terms => exact text_rolled_mapOrigin g m.name (t :: terms)

end ModifierShare

namespace Modifier

variable {policy : BoundsPolicy} {rolled : List RolledTerm}

/-- The parts of the modifiers behind `before`, with and without the inert ones. -/
theorem woven_listFrom (before rest : List Modifier)
    (horigins : ∀ t ∈ rolled, ∀ index, t.term.origin = .modifier index →
      ∃ m, (before ++ rest)[index]? = some m ∧ m.isInert policy = false) :
    Woven policy rest ((ModifierShare.listFrom rolled before.length rest).map ModifierShare.text)
      ((ModifierShare.listFrom
        (rolled.map (RolledTerm.mapOrigin (renumber policy (before ++ rest))))
        (readable policy before).length (readable policy rest)).map ModifierShare.text) := by
  induction rest generalizing before with
  | nil => exact .nil
  | cons m rest ih =>
    have hassoc : before ++ [m] ++ rest = before ++ m :: rest := List.append_assoc ..
    have hm? : (before ++ m :: rest)[before.length]? = some m := by
      rw [List.getElem?_append_right (Nat.le_refl _), Nat.sub_self]
      rfl
    have ih := ih (before ++ [m]) (by rwa [hassoc])
    rw [hassoc, List.length_append, List.length_singleton] at ih
    cases hm : m.isInert policy with
    | true =>
      obtain ⟨expression, -, hvalue, -⟩ := isInert_iff.mp hm
      -- no term came from here, so that nothing was rolled for the expression
      have hnone : rolled.filter (fun t => t.term.origin = .modifier before.length) = [] := by
        refine List.filter_eq_nil_iff.mpr fun t ht horigin => ?_
        obtain ⟨m', h', hm'⟩ := horigins t ht before.length (of_decide_eq_true horigin)
        rw [hm?, Option.some.injEq] at h'
        rw [← h', hm] at hm'
        cases hm'
      have hshare : ModifierShare.of rolled before.length m = .inert m.name expression := by
        rw [ModifierShare.of, hvalue]
        dsimp only
        rw [hnone]
      rw [readable_concat_of_inert policy hm] at ih
      rw [ModifierShare.listFrom, List.map_cons, hshare, ModifierShare.text_inert,
        readable_cons_of_inert policy hm]
      exact .inert expression hm hvalue ih
    | false =>
      have hplace := place_append_length policy before (m :: rest)
      have hkeep : ∀ t ∈ rolled, renumber policy (before ++ m :: rest) t.term.origin =
          .modifier (readable policy before).length ↔
            t.term.origin = .modifier before.length := by
        intro t ht
        rw [← hplace]
        exact renumber_eq_iff hm? hm (horigins t ht)
      rw [length_readable_concat policy hm] at ih
      rw [readable_cons policy hm, ModifierShare.listFrom, ModifierShare.listFrom, List.map_cons,
        List.map_cons, ModifierShare.text_of_mapOrigin hkeep]
      exact .same _ hm ih

/-- The warnings are one for each inert modifier, in order. -/
theorem forall₂_inertWarnings (modifiers : List Modifier) :
    List.Forall₂ (fun m w => ∃ expression e, m.value = .dice expression ∧
        Formula.readWith policy expression = .error e ∧ w = .inertModifier m.name e.message)
      (modifiers.filter (isInert policy)) (inertWarnings policy modifiers) := by
  induction modifiers with
  | nil => exact .nil
  | cons m rest ih =>
    cases m.kind policy with
    | integer amount hvalue =>
      have hwarnings : inertWarnings policy (m :: rest) = inertWarnings policy rest :=
        List.filterMap_cons_none (inertWarning?_of_integer hvalue)
      rwa [List.filter_cons_of_neg (by simp [isInert_of_integer hvalue]), hwarnings]
    | readable expression f hvalue hread =>
      have hwarnings : inertWarnings policy (m :: rest) = inertWarnings policy rest :=
        List.filterMap_cons_none (inertWarning?_of_readable hvalue hread)
      rwa [List.filter_cons_of_neg (by simp [isInert_of_readable hvalue hread]), hwarnings]
    | inert expression e hvalue hread =>
      have hwarnings : inertWarnings policy (m :: rest) =
          .inertModifier m.name e.message :: inertWarnings policy rest :=
        List.filterMap_cons_some (inertWarning?_of_inert hvalue hread)
      rw [List.filter_cons_of_pos (isInert_of_inert hvalue hread), hwarnings]
      exact .cons ⟨expression, e, hvalue, hread, rfl⟩ ih

/-- The modifiers that are not inert have no warning. -/
theorem inertWarnings_readable (modifiers : List Modifier) :
    inertWarnings policy (readable policy modifiers) = [] := by
  refine List.filterMap_eq_nil_iff.mpr fun m hm => ?_
  have hinert : m.isInert policy = false := by simpa using (List.mem_filter.mp hm).2
  cases m.kind policy with
  | integer amount hvalue => exact inertWarning?_of_integer hvalue
  | readable expression f hvalue hread => exact inertWarning?_of_readable hvalue hread
  | inert expression e hvalue hread =>
    rw [isInert_of_inert hvalue hread] at hinert
    cases hinert

end Modifier

/-! ## Two requests -/

/-- The request without its inert modifiers. -/
def Request.withoutInert (request : Request) (policy : BoundsPolicy) : Request :=
  { request with modifiers := Modifier.readable policy request.modifiers }

/-- How the outcome `less`, without the inert ones of the modifiers, compares with the outcome
`full`, with all of them. -/
structure Outcome.LessInert (policy : BoundsPolicy) (modifiers : List Modifier)
    (full less : Outcome) : Prop where
  formula : less.formula = full.formula
  total : less.total = full.total
  success : less.success = full.success
  criticals : less.criticals = full.criticals
  fumbles : less.fumbles = full.fumbles
  /-- every die shows the same faces -/
  dice : less.rolledTerms.map RolledTerm.dice = full.rolledTerms.map RolledTerm.dice
  /-- the rolled terms are the same, renumbered -/
  rolledTerms : less.rolledTerms =
    full.rolledTerms.map (RolledTerm.mapOrigin (Modifier.renumber policy modifiers))
  /-- at the new number of a rolled term stands the modifier that stood at the old one -/
  numbers : ∀ t ∈ full.rolledTerms, ∀ index, t.term.origin = .modifier index →
    ∃ m, modifiers[index]? = some m ∧
      (Modifier.readable policy modifiers)[Modifier.place policy modifiers index]? = some m
  /-- each inert modifier has one warning, in front of those for capped dice -/
  warnings : ∃ inert, full.warnings = inert ++ less.warnings ∧
    List.Forall₂ (fun m w => ∃ expression e, m.value = .dice expression ∧
        Formula.readWith policy expression = .error e ∧ w = .inertModifier m.name e.message)
      (modifiers.filter (Modifier.isInert policy)) inert
  /-- without the inert modifiers there are warnings for capped dice only -/
  caps : ∀ w ∈ less.warnings, ∃ sides cap, w = .explosionCapExceeded sides cap
  /-- the lines show the same of the formula and of the total; between these they differ by one part
  for each inert modifier, at its place -/
  description : ∃ against,
    let front := baseParts full.rolledTerms
    let verdict := verdictChars ⟨full.total, full.success, against⟩
    let parts := modifierDescriptions modifiers full.rolledTerms
    let others := modifierDescriptions (Modifier.readable policy modifiers) less.rolledTerms
    full.description =
        String.ofList ([' '].intercalate (front ++ parts.map String.toList) ++ verdict) ∧
      less.description =
        String.ofList ([' '].intercalate (front ++ others.map String.toList) ++ verdict) ∧
      Modifier.Woven policy modifiers parts others

/-- Two outcomes of one judgement, of terms and of the same terms renumbered. -/
theorem Outcome.ofEvaluation_lessInert {C : Config} {f : Formula} {rolled : List RolledTerm}
    {request : Request} (evaluation : Evaluation)
    (horigins : ∀ t ∈ rolled, ∀ index, t.term.origin = .modifier index →
      ∃ m, request.modifiers[index]? = some m ∧ m.isInert C.bounds = false) :
    let g := Modifier.renumber C.bounds request.modifiers
    LessInert C.bounds request.modifiers (ofEvaluation C request f rolled evaluation)
      (ofEvaluation C (request.withoutInert C.bounds) (f.mapOrigin g)
        (rolled.map (RolledTerm.mapOrigin g)) evaluation) := by
  intro g
  have hbase : Origin.KeepsBase g := Modifier.keepsBase_renumber C.bounds request.modifiers
  have hwarnings : (ofEvaluation C (request.withoutInert C.bounds) (f.mapOrigin g)
      (rolled.map (RolledTerm.mapOrigin g)) evaluation).warnings =
        capWarnings C.explosionCap rolled := by
    rw [ofEvaluation, Request.withoutInert, Modifier.inertWarnings_readable, List.nil_append,
      capWarnings_mapOrigin]
  refine {
    formula := f.text_mapOrigin g
    total := rfl
    success := rfl
    criticals := criticalCount_mapOrigin hbase rolled
    fumbles := fumbleCount_mapOrigin hbase rolled
    dice := List.map_map
    rolledTerms := rfl
    numbers := ?_
    warnings := ?_
    caps := ?_
    description := ?_ }
  · intro t ht index hindex
    obtain ⟨m, hm, hinert⟩ := horigins t ht index hindex
    exact ⟨m, hm, Modifier.getElem?_place hm hinert⟩
  · rw [hwarnings]
    exact ⟨_, rfl, Modifier.forall₂_inertWarnings request.modifiers⟩
  · intro w hw
    rw [hwarnings] at hw
    obtain ⟨sides, -, rfl⟩ := List.mem_map.mp hw
    exact ⟨sides, C.explosionCap, rfl⟩
  · refine ⟨evaluation.against, describe_eq_intercalate rolled evaluation _, ?_,
      Modifier.woven_listFrom [] request.modifiers horigins⟩
    exact (describe_mapOrigin hbase rolled evaluation _).trans
      (describe_eq_intercalate rolled evaluation _)

/-- **An inert modifier is neutral.** With and without its inert modifiers a request leaves the
source in the same state, and it ends in the same error or in outcomes that differ by what is told
of the inert modifiers alone. -/
theorem resolve_withoutInert {σ : Type} (source : DieSource σ) (config : Config)
    (request : Request) (s : σ) :
    let full := resolve source config request s
    let less := resolve source config (request.withoutInert config.bounds) s
    less.2 = full.2 ∧
      ((∃ e, full.1 = .error e ∧ less.1 = .error e) ∨
        ∃ o o', full.1 = .ok o ∧ less.1 = .ok o' ∧
          o.LessInert config.bounds request.modifiers o') := by
  intro full less
  cases hp : prepareBase config request with
  | error e =>
    have hfull : full = (.error e, s) := resolve_of_base_error source s hp
    have hless : less = (.error e, s) := resolve_of_base_error source s hp
    rw [hfull, hless]
    exact ⟨rfl, .inl ⟨e, rfl, rfl⟩⟩
  | ok prepared =>
    obtain ⟨C, base⟩ := prepared
    obtain ⟨rfl, hread⟩ := read_of_prepareBase hp
    have hbase := (Formula.wellFormed_of_readWith hread).base
    -- the smaller formula is the larger one renumbered, which has the same dice and judgement
    have hf := Formula.combineWith_readable (config.overriddenBy request).bounds hbase
      request.modifiers
    have hfull : full = _ := resolve_of_base source s hp
    have hp' : prepareBase config (request.withoutInert config.bounds) =
        .ok (config.overriddenBy request, base) := (prepareBase_modifiers config request _).trans hp
    have hless : less = _ := resolve_of_base_mapOrigin source s hp' hf
    rw [hfull, hless]
    refine ⟨rfl, ?_⟩
    cases Evaluation.of (config.overriddenBy request) (Formula.roll source
        (config.overriddenBy request).explosions
        (base.combineWith (config.overriddenBy request).bounds request.modifiers) s).1 0 with
    | error e => exact .inl ⟨e, rfl, rfl⟩
    | ok evaluation =>
      refine .inr ⟨_, _, rfl, rfl, Outcome.ofEvaluation_lessInert evaluation ?_⟩
      intro t ht index hindex
      exact Formula.exists_of_mem_combineWith hbase
        (Formula.term_mem source (config.overriddenBy request).explosions ht) hindex

/-- The part of an inert modifier stands between those of its neighbours. -/
example : (resolve Script.source {} ⟨some "1d20", [⟨"Str", .integer 3⟩, ⟨"Typo", .dice "1x4"⟩,
    ⟨"Bless", .dice "1d4"⟩], none, none⟩ ⟨[14, 2], 0⟩).1.map Outcome.description =
      .ok "1d20 [14] +3 Str +0 Typo (invalid: 1x4) +2 Bless (1d4 [2]) = 19" := by
  decide

end Tabletop
