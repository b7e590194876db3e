import Mathlib.Data.List.Sort
import Mathlib.Logic.Equiv.Fin.Rotate
import Tabletop.Proofs.Modifier.Blocks
import Tabletop.Proofs.Total

/-!
# Rearranged modifiers

Whole numbers only add to the net, so they may stand anywhere among the modifiers. As long as their
distances from zero add up to an amount, the net does not stop on the way and is the same in every
order.

* `Modifier.Rearrangement` — a new place for every modifier, with the dice modifiers in order.
* `Modifier.Rearrangement.renumber` — the origins that go with the new places.
* `Modifier.Rearrangement.map_filter_zipIdx` — the dice modifiers at their new places.
* `Formula.combineWith_rearranged` — the combined formula, its origins renumbered.
* `resolve_rearranged` — both requests side by side.
-/

namespace Tabletop

namespace Modifier

/-- Whether the value of a modifier is an expression. -/
def isDice (m : Modifier) : Bool :=
  m.integer?.isNone

theorem isDice_iff {m : Modifier} : m.isDice = true ↔ ∃ expression, m.value = .dice expression := by
  cases hvalue : m.value <;> simp [isDice, integer?, hvalue]

/-- The same modifiers in another order: where each one goes. The dice modifiers stay in order;
whole numbers go anywhere. -/
structure Rearrangement (before after : List Modifier) where
  /-- the new place of a modifier -/
  place : Fin before.length ≃ Fin after.length
  /-- at its new place stands the same modifier -/
  same : ∀ i, after[place i] = before[i]
  /-- dice modifiers do not overtake each other -/
  inOrder : ∀ i j, before[i].isDice = true → before[j].isDice = true → i < j → place i < place j

namespace Rearrangement

variable {before after : List Modifier} (r : Rearrangement before after)

/-- The new place, as a number; numbers that are no place stay. -/
def index (i : Nat) : Nat :=
  if h : i < before.length then r.place ⟨i, h⟩ else i

/-- The origin of a term once the modifiers are rearranged. -/
def renumber : Origin → Origin
  | .modifier i => .modifier (r.index i)
  | .base => .base
  | .netModifier => .netModifier

include r in
theorem length_eq : before.length = after.length :=
  Fin.equiv_iff_eq.mp ⟨r.place⟩

theorem index_of_lt {i : Nat} (h : i < before.length) : r.index i = r.place ⟨i, h⟩ :=
  dif_pos h

theorem index_injective : Function.Injective r.index := by
  have hlength := r.length_eq
  intro i j hij
  rw [index, index] at hij
  split at hij
  · split at hij
    · exact Fin.val_eq_of_eq (r.place.injective (Fin.ext hij))
    · omega
  · split at hij
    · omega
    · exact hij

theorem getElem?_index {i : Nat} {m : Modifier} (h : before[i]? = some m) :
    after[r.index i]? = some m := by
  obtain ⟨hlt, rfl⟩ := List.getElem?_eq_some_iff.mp h
  rw [index_of_lt r hlt, List.getElem?_eq_some_iff]
  exact ⟨(r.place ⟨i, hlt⟩).isLt, r.same ⟨i, hlt⟩⟩

theorem exists_index_eq {j : Nat} {m : Modifier} (h : after[j]? = some m) :
    ∃ i, before[i]? = some m ∧ r.index i = j := by
  obtain ⟨hlt, hget⟩ := List.getElem?_eq_some_iff.mp h
  obtain ⟨i, hi⟩ := r.place.surjective ⟨j, hlt⟩
  obtain rfl : (r.place i).val = j := congrArg Fin.val hi
  exact ⟨i, List.getElem?_eq_some_iff.mpr ⟨i.isLt, (r.same i).symm.trans hget⟩,
    index_of_lt r i.isLt⟩

theorem keepsBase_renumber : Origin.KeepsBase r.renumber := by
  intro o
  cases o <;> simp [renumber]

theorem renumber_eq_iff {o : Origin} {i : Nat} :
    r.renumber o = .modifier (r.index i) ↔ o = .modifier i := by
  cases o with
  | base => exact iff_of_false nofun nofun
  | netModifier => exact iff_of_false nofun nofun
  | modifier j =>
    rw [renumber, Origin.modifier.injEq, Origin.modifier.injEq]
    exact r.index_injective.eq_iff

/-! ## Modifiers with their places -/

theorem pairwise_zipIdx (modifiers : List Modifier) :
    modifiers.zipIdx.Pairwise fun p q => p.2 < q.2 := by
  refine List.pairwise_map.mp ?_
  rw [List.zipIdx_map_snd]
  exact List.pairwise_lt_range' 1

theorem nodup_zipIdx (modifiers : List Modifier) : modifiers.zipIdx.Nodup :=
  (pairwise_zipIdx modifiers).imp fun hlt heq => Nat.ne_of_lt hlt (congrArg Prod.snd heq)

/-- The modifiers with their new places are those of the new list, in another order. -/
theorem perm_zipIdx : (before.zipIdx.map (Prod.map id r.index)).Perm after.zipIdx := by
  have hnodup : (before.zipIdx.map (Prod.map id r.index)).Nodup :=
    (nodup_zipIdx before).map (Function.injective_id.prodMap r.index_injective)
  rw [List.perm_ext_iff_of_nodup hnodup (nodup_zipIdx after)]
  rintro ⟨m, j⟩
  rw [List.mem_map, List.mem_zipIdx_iff_getElem?]
  constructor
  · rintro ⟨⟨m', i⟩, hi, heq⟩
    obtain ⟨rfl, rfl⟩ := Prod.mk.inj heq
    exact r.getElem?_index (List.mem_zipIdx_iff_getElem?.mp hi)
  · intro hj
    obtain ⟨i, hi, rfl⟩ := r.exists_index_eq hj
    exact ⟨(m, i), List.mem_zipIdx_iff_getElem?.mpr hi, rfl⟩

include r in
theorem perm : before.Perm after := by
  have hfst := r.perm_zipIdx.map Prod.fst
  rw [List.map_map, List.zipIdx_map_fst] at hfst
  exact (List.Perm.of_eq (List.zipIdx_map_fst 0 before).symm).trans hfst

/-- **Dice modifiers keep their order**, each at its new place. -/
theorem map_filter_zipIdx :
    (before.zipIdx.filter (·.1.isDice)).map (Prod.map id r.index) =
      after.zipIdx.filter (·.1.isDice) := by
  have hperm : ((before.zipIdx.filter (·.1.isDice)).map (Prod.map id r.index)).Perm
      (after.zipIdx.filter (·.1.isDice)) := by
    have := r.perm_zipIdx.filter (·.1.isDice)
    rwa [List.filter_map] at this
  -- both are sorted by places, the former as dice modifiers do not overtake each other
  have hsorted : ((before.zipIdx.filter (·.1.isDice)).map (Prod.map id r.index)).Pairwise
      fun p q => p.2 < q.2 := by
    refine List.pairwise_map.mpr (((pairwise_zipIdx before).filter _).imp_of_mem ?_)
    rintro ⟨m, i⟩ ⟨m', j⟩ hi hj hlt
    obtain ⟨hi, hdice⟩ := List.mem_filter.mp hi
    obtain ⟨hj, hdice'⟩ := List.mem_filter.mp hj
    obtain ⟨hi, hm⟩ := List.mem_zipIdx' hi
    obtain ⟨hj, hm'⟩ := List.mem_zipIdx' hj
    rw [hm] at hdice
    rw [hm'] at hdice'
    simp only [Prod.map_snd, index_of_lt r hi, index_of_lt r hj]
    exact r.inOrder ⟨i, hi⟩ ⟨j, hj⟩ hdice hdice' hlt
  exact hperm.eq_of_pairwise (fun p q _ _ hpq hqp => absurd hqp (Nat.lt_asymm hpq)) hsorted
    ((pairwise_zipIdx after).filter _)

include r in
theorem filter_isDice_eq : after.filter isDice = before.filter isDice := by
  have hfst := congrArg (List.map Prod.fst) r.map_filter_zipIdx
  have hfilter : ∀ modifiers : List Modifier,
      (modifiers.zipIdx.filter (·.1.isDice)).map Prod.fst = modifiers.filter isDice := by
    intro modifiers
    conv_rhs => rw [← List.zipIdx_map_fst 0 modifiers, List.filter_map]
    rfl
  rw [List.map_map, hfilter] at hfst
  exact hfst.symm.trans (hfilter before)

end Rearrangement

/-! ## Terms and warnings -/

theorem addedFrom_zero_eq_flatMap (policy : BoundsPolicy) (modifiers : List Modifier) :
    addedFrom policy 0 modifiers =
      (modifiers.zipIdx.filter (·.1.isDice)).flatMap fun p => p.1.addedTerms policy p.2 := by
  rw [addedFrom_eq_flatMap]
  induction modifiers.zipIdx with
  | nil => rfl
  | cons p rest ih =>
    rw [List.flatMap_cons, List.filter_cons, ih]
    split
    · rfl
    · next hp =>
      cases hvalue : p.1.value with
      | integer amount => rw [addedTerms_of_integer hvalue, List.nil_append]
      | dice expression => exact absurd (isDice_iff.mpr ⟨expression, hvalue⟩) hp

theorem inertWarnings_filter_isDice (policy : BoundsPolicy) (modifiers : List Modifier) :
    inertWarnings policy (modifiers.filter isDice) = inertWarnings policy modifiers := by
  rw [inertWarnings, List.filterMap_filter]
  refine List.filterMap_congr fun m _ => ?_
  cases hvalue : m.value with
  | integer amount => rw [inertWarning?_of_integer hvalue, ite_self]
  | dice expression => rw [if_pos (isDice_iff.mpr ⟨expression, hvalue⟩)]

section Rearranged

variable {before after : List Modifier} (r : Rearrangement before after) (policy : BoundsPolicy)

theorem addedFrom_rearranged :
    addedFrom policy 0 after = (addedFrom policy 0 before).map (Term.mapOrigin r.renumber) := by
  rw [addedFrom_zero_eq_flatMap, ← r.map_filter_zipIdx, List.flatMap_map,
    addedFrom_zero_eq_flatMap, List.map_flatMap]
  exact List.flatMap_congr fun p _ => (map_mapOrigin_addedTerms policy rfl p.1).symm

include r in
theorem inertWarnings_rearranged : inertWarnings policy after = inertWarnings policy before := by
  rw [← inertWarnings_filter_isDice, r.filter_isDice_eq, inertWarnings_filter_isDice]

include r in
/-- The net is the same in every order, as it is the exact sum. -/
theorem netTerms_rearranged
    (hweight : (Amount.weight (before.filterMap integer?) : Int) ≤ Amount.greatest) :
    netTerms after = netTerms before := by
  have hperm : (before.filterMap integer?).Perm (after.filterMap integer?) :=
    r.perm.filterMap integer?
  by_cases h : before.filterMap integer? = []
  · have hafter : after.filterMap integer? = [] := (h ▸ hperm).nil_eq.symm
    rw [netTerms_eq_nil_iff.mpr h, netTerms_eq_nil_iff.mpr hafter]
  · have hafter : after.filterMap integer? ≠ [] := fun hnil => h (hnil ▸ hperm).eq_nil
    rw [netTerms_of_ne_nil h, netTerms_of_ne_nil hafter, Amount.total_eq_of_perm hperm hweight]

end Rearranged

end Modifier

/-- **In another order of whole numbers the combined formula is the same**, but for the numbers in
its origins. -/
theorem Formula.combineWith_rearranged (policy : BoundsPolicy) {base : Formula}
    (hbase : ∀ t ∈ base.terms, t.origin = .base) {before after : List Modifier}
    (r : Modifier.Rearrangement before after)
    (hweight : (Amount.weight (before.filterMap Modifier.integer?) : Int) ≤ Amount.greatest) :
    base.combineWith policy after = (base.combineWith policy before).mapOrigin r.renumber :=
  combineWith_eq_mapOrigin hbase rfl rfl (Modifier.addedFrom_rearranged r policy)
    (Modifier.netTerms_rearranged r hweight)

/-! ## Two requests -/

/-- How the outcomes `one` and `other` of a request and of the same request with its modifiers
rearranged compare. -/
structure Modifier.Rearrangement.Relates {before after : List Modifier}
    (r : Rearrangement before after) (one other : Outcome) : Prop where
  formula : other.formula = one.formula
  total : other.total = one.total
  success : other.success = one.success
  criticals : other.criticals = one.criticals
  fumbles : other.fumbles = one.fumbles
  warnings : other.warnings = one.warnings
  /-- every die shows the same faces -/
  dice : other.rolledTerms.map RolledTerm.dice = one.rolledTerms.map RolledTerm.dice
  /-- the rolled terms are the same, renumbered -/
  rolledTerms : other.rolledTerms = one.rolledTerms.map (RolledTerm.mapOrigin r.renumber)
  /-- the lines show the same of the formula and of the total; between these they differ by the
  order of the modifiers' parts, each at the place of its modifier -/
  description : ∃ against,
    let front := baseParts one.rolledTerms
    let verdict := verdictChars ⟨one.total, one.success, against⟩
    let parts := modifierDescriptions before one.rolledTerms
    let others := modifierDescriptions after other.rolledTerms
    one.description =
        String.ofList ([' '].intercalate (front ++ parts.map String.toList) ++ verdict) ∧
      other.description =
        String.ofList ([' '].intercalate (front ++ others.map String.toList) ++ verdict) ∧
      parts.length = before.length ∧ others.length = after.length ∧
      ∀ i, others[(r.place i).val]? = parts[i.val]?

/-- Two outcomes of one judgement, of terms and of the same terms renumbered. -/
theorem Outcome.ofEvaluation_rearranged {C : Config} {request : Request} {after : List Modifier}
    (r : Modifier.Rearrangement request.modifiers after) (f : Formula) (rolled : List RolledTerm)
    (evaluation : Evaluation) :
    r.Relates (ofEvaluation C request f rolled evaluation)
      (ofEvaluation C { request with modifiers := after } (f.mapOrigin r.renumber)
        (rolled.map (RolledTerm.mapOrigin r.renumber)) evaluation) where
  formula := f.text_mapOrigin r.renumber
  total := rfl
  success := rfl
  criticals := criticalCount_mapOrigin r.keepsBase_renumber rolled
  fumbles := fumbleCount_mapOrigin r.keepsBase_renumber rolled
  warnings := by
    rw [ofEvaluation, Modifier.inertWarnings_rearranged r, capWarnings_mapOrigin, ofEvaluation]
  dice := List.map_map
  rolledTerms := rfl
  description := by
    refine ⟨evaluation.against, describe_eq_intercalate rolled evaluation _,
      (describe_mapOrigin r.keepsBase_renumber rolled evaluation _).trans
        (describe_eq_intercalate rolled evaluation _),
      length_modifierDescriptions _ _, length_modifierDescriptions _ _, ?_⟩
    intro i
    have hi := List.getElem?_eq_getElem i.isLt
    have hplace := r.getElem?_index hi
    rw [r.index_of_lt i.isLt] at hplace
    dsimp only [ofEvaluation]
    rw [getElem?_modifierDescriptions hplace, getElem?_modifierDescriptions hi,
      ModifierShare.text_of_mapOrigin]
    intro t _
    rw [← r.index_of_lt i.isLt]
    exact r.renumber_eq_iff

/-- **The order of whole numbers does not matter.** With its whole numbers elsewhere among the
modifiers, and their distances from zero adding up to an amount, a request leaves the source in the
same state, and it ends in the same error or in outcomes that differ by the modifiers' places
alone. -/
theorem resolve_rearranged {σ : Type} (source : DieSource σ) (config : Config) (request : Request)
    {after : List Modifier} (r : Modifier.Rearrangement request.modifiers after)
    (hweight : (Amount.weight (request.modifiers.filterMap Modifier.integer?) : Int) ≤
      Amount.greatest) (s : σ) :
    let one := resolve source config request s
    let other := resolve source config { request with modifiers := after } s
    other.2 = one.2 ∧
      ((∃ e, one.1 = .error e ∧ other.1 = .error e) ∨
        ∃ o o', one.1 = .ok o ∧ other.1 = .ok o' ∧ r.Relates o o') := by
  have hf : ∀ C base, prepareBase config request = .ok (C, base) →
      base.combineWith C.bounds after =
        (base.combineWith C.bounds request.modifiers).mapOrigin r.renumber := by
    intro C base hp
    obtain ⟨rfl, hread⟩ := read_of_prepareBase hp
    exact Formula.combineWith_rearranged _ (Formula.wellFormed_of_readWith hread).base r hweight
  obtain ⟨hstate, herror | ⟨C, f, rolled, evaluation, hone, hother⟩⟩ :=
    resolve_of_combineWith_mapOrigin source config request after r.renumber hf s
  · exact ⟨hstate, .inl herror⟩
  · exact ⟨hstate, .inr ⟨_, _, hone, hother, Outcome.ofEvaluation_rearranged r f rolled evaluation⟩⟩

/-- A whole number moved in front of a die and of another whole number: the total stays, and the
number in the origin of the die changes. -/
theorem resolve_rearranged_front :
    let bless : Modifier := ⟨"Bless", .dice "1d4"⟩
    let before : List Modifier := [bless, ⟨"Str", .integer 3⟩, ⟨"Woe", .integer (-1)⟩]
    let after : List Modifier := [⟨"Woe", .integer (-1)⟩, bless, ⟨"Str", .integer 3⟩]
    let outcome modifiers := (resolve Script.source {} ⟨some "1d20", modifiers, none, none⟩
      ⟨[14, 2], 0⟩).1
    (Amount.weight (before.filterMap Modifier.integer?) : Int) ≤ Amount.greatest ∧
      ∃ r : Modifier.Rearrangement before after, ∃ o o',
        outcome before = .ok o ∧ outcome after = .ok o' ∧ o.total = 18 ∧ o'.total = 18 ∧
          o'.rolledTerms = o.rolledTerms.map (RolledTerm.mapOrigin r.renumber) := by
  intro bless before after outcome
  have hweight : (Amount.weight (before.filterMap Modifier.integer?) : Int) ≤ Amount.greatest := by
    decide
  have h : ∃ o, outcome before = .ok o ∧ o.total = 18 :=
    ⟨⟨"1d20+1d4+2", 18, none, [⟨.dice .plus 1 20, .dice [⟨[14], false⟩]⟩,
        ⟨⟨.plus, .dice 1 4, .modifier 0⟩, .dice [⟨[2], false⟩]⟩,
        ⟨⟨.plus, .constant 2, .netModifier⟩, .constant 2⟩],
      "1d20 [14] +2 Bless (1d4 [2]) +3 Str -1 Woe = 18", 0, 0, []⟩, by decide, rfl⟩
  let r : Modifier.Rearrangement before after := ⟨finRotate 3, by decide, by decide⟩
  obtain ⟨o, ho, htotal⟩ := h
  obtain ⟨-, ⟨e, he, -⟩ | ⟨o', o'', ho', ho'', hrelates⟩⟩ :=
    resolve_rearranged Script.source {} ⟨some "1d20", before, none, none⟩ r hweight ⟨[14, 2], 0⟩
  · exact absurd (he.symm.trans ho) nofun
  · obtain rfl := Except.ok.inj (ho'.symm.trans ho)
    exact ⟨hweight, r, _, _, ho, ho'', htotal, hrelates.total.trans htotal, hrelates.rolledTerms⟩

end Tabletop
