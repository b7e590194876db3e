import Mathlib.Data.List.FinRange
import Mathlib.Logic.Equiv.Fin.Rotate
import Tabletop.Proofs.Ranked

/-!
# Base dice in groups

A line shows the dice of the formula in groups, whatever the order of the terms they were rolled
for. No die is lost or shown twice, and within a group the dice stay in the order of the formula.

* `baseDiceOf` — the base terms with dice of one size and sign, in order.
* `DiceGroup.parts_eq_map` — the texts of the groups, each from the group and its place.
* `DiceGroup.perm_dice` — every base die is in one group.
* `baseParts` — what a line shows of the formula itself; `describe_eq_intercalate` lays a line out.
* `filter_eq_of_place` — items that do not overtake each other are in the same order at their new
  places.
* `BaseReordering` — a roll in another order, with no overtaking among the dice of a group nor
  among the constants.
* `describe_groups` — the line, and that a reordering does not change it.
-/

namespace Tabletop

/-! ## Base terms -/

/-- Dice that were written in the formula. -/
def RolledTerm.IsBaseDice (t : RolledTerm) : Prop :=
  t.term.origin = .base ∧ t.term.isDice = true

instance RolledTerm.decidableIsBaseDice : DecidablePred RolledTerm.IsBaseDice :=
  fun t => inferInstanceAs (Decidable (t.term.origin = .base ∧ t.term.isDice = true))

/-- A constant that was written in the formula. -/
def RolledTerm.IsBaseConstant (t : RolledTerm) : Prop :=
  t.term.origin = .base ∧ t.term.isDice = false

instance RolledTerm.decidableIsBaseConstant : DecidablePred RolledTerm.IsBaseConstant :=
  fun t => inferInstanceAs (Decidable (t.term.origin = .base ∧ t.term.isDice = false))

/-- The rolled base terms with dice of one size and sign, in the order of the formula. -/
def baseDiceOf (key : GroupKey) (rolled : List RolledTerm) : List RolledTerm :=
  rolled.filter fun t => t.term.origin = .base ∧ t.sides? = some key.sides ∧ t.term.sign = key.sign

theorem GroupKey.of?_eq_some_iff {t : RolledTerm} {key : GroupKey} : of? t = some key ↔
    t.term.origin = .base ∧ t.sides? = some key.sides ∧ t.term.sign = key.sign := by
  obtain ⟨sides, sign⟩ := key
  rw [of?]
  cases t.term.origin <;> cases t.sides? <;> simp

theorem RolledTerm.isBaseDice_of_sides? {t : RolledTerm} {sides : UInt32}
    (hbase : t.term.origin = .base) (hsides : t.sides? = some sides) : t.IsBaseDice :=
  ⟨hbase, t.term.isDice_eq_isSome_sides?.trans (Option.isSome_of_eq_some hsides)⟩

/-- The base dice are the terms that have a group. -/
theorem RolledTerm.isBaseDice_iff {t : RolledTerm} :
    t.IsBaseDice ↔ ∃ key, GroupKey.of? t = some key := by
  constructor
  · rintro ⟨hbase, hdice⟩
    rw [Term.isDice_eq_isSome_sides?, Option.isSome_iff_exists] at hdice
    obtain ⟨sides, hsides⟩ := hdice
    exact ⟨⟨sides, t.term.sign⟩, GroupKey.of?_eq_some_iff.mpr ⟨hbase, hsides, rfl⟩⟩
  · rintro ⟨key, hkey⟩
    obtain ⟨hbase, hsides, -⟩ := GroupKey.of?_eq_some_iff.mp hkey
    exact RolledTerm.isBaseDice_of_sides? hbase hsides

theorem filter_of?_eq_baseDiceOf (rolled : List RolledTerm) (key : GroupKey) :
    (rolled.filter fun t => GroupKey.of? t = some key) = baseDiceOf key rolled :=
  List.filter_congr fun _ _ => decide_eq_decide.mpr GroupKey.of?_eq_some_iff

/-! ## The groups -/

/-- Items taken key by key are the items in another order, when the keys are different ones and
every item has one of them. -/
theorem perm_flatMap_filter {α κ : Type} [DecidableEq κ] (key : α → κ) {keys : List κ}
    (hnodup : keys.Nodup) {xs : List α} (hmem : ∀ x ∈ xs, key x ∈ keys) :
    (keys.flatMap fun k => xs.filter fun x => key x = k).Perm xs := by
  induction keys generalizing xs with
  | nil =>
    rw [List.eq_nil_iff_forall_not_mem.mpr fun x hx => List.not_mem_nil (hmem x hx)]
    exact .nil
  | cons k keys ih =>
    obtain ⟨hk, hkeys⟩ := List.nodup_cons.mp hnodup
    -- the items of the other keys are those left once the items of the first key are taken out
    have hrest : ∀ x ∈ xs.filter fun x => !decide (key x = k), key x ∈ keys := by
      intro x hx
      obtain ⟨hx, hne⟩ := List.mem_filter.mp hx
      rcases List.mem_cons.mp (hmem x hx) with heq | hmem
      · simp [heq] at hne
      · exact hmem
    have hfilter : (keys.flatMap fun k => xs.filter fun x => key x = k) =
        keys.flatMap fun k' => (xs.filter fun x => !decide (key x = k)).filter
          fun x => key x = k' := by
      refine List.flatMap_congr fun k' hk' => ?_
      rw [List.filter_filter]
      refine List.filter_congr fun x _ => ?_
      by_cases hx : key x = k'
      · have hne : k' ≠ k := fun heq => hk (heq ▸ hk')
        simp [hx, hne]
      · simp [hx]
    rw [List.flatMap_cons, hfilter]
    exact ((ih hkeys hrest).append_left _).trans (List.filter_append_perm _ xs)

/-- The sizes and signs of the groups, in the order of the line. -/
def groupKeys (rolled : List RolledTerm) : List GroupKey :=
  ranked GroupKey.before (rolled.filterMap GroupKey.of?)

theorem mem_groupKeys {rolled : List RolledTerm} {key : GroupKey} :
    key ∈ groupKeys rolled ↔
      ∃ t ∈ rolled, t.term.origin = .base ∧ t.sides? = some key.sides ∧ t.term.sign = key.sign := by
  rw [groupKeys, mem_ranked GroupKey.ranking, List.mem_filterMap]
  exact exists_congr fun t => and_congr_right' GroupKey.of?_eq_some_iff

theorem pairwise_groupKeys (rolled : List RolledTerm) :
    (groupKeys rolled).Pairwise fun a b =>
      b.sides < a.sides ∨ a.sides = b.sides ∧ a.sign = .plus ∧ b.sign = .minus := by
  refine (pairwise_ranked GroupKey.ranking _).imp fun {a b} h => ?_
  rwa [GroupKey.before_iff, ← UInt32.lt_iff_toNat_lt] at h

theorem nodup_groupKeys (rolled : List RolledTerm) : (groupKeys rolled).Nodup :=
  nodup_ranked GroupKey.ranking _

namespace DiceGroup

theorem ofRolled_eq_map (rolled : List RolledTerm) :
    ofRolled rolled = (groupKeys rolled).map fun key =>
      ⟨key, (baseDiceOf key rolled).flatMap RolledTerm.dice⟩ := by
  simp only [ofRolled, filter_of?_eq_baseDiceOf]
  rfl

theorem signedChars_eq (sign : Sign) (first : Bool) (body : List Char) :
    signedChars sign first body =
      (if first = true ∧ sign = .plus then [] else [sign.symbol]) ++ body := by
  rw [signedChars]
  cases sign <;> cases first <;> rfl

/-- The text of a group depends on its place only by the plus that may be left out in front. -/
theorem parts_eq_map (groups : List DiceGroup) :
    parts groups = groups.zipIdx.map fun p =>
      (if p.2 = 0 ∧ p.1.key.sign = .plus then [] else [p.1.key.sign.symbol]) ++ p.1.chars := by
  cases groups with
  | nil => rfl
  | cons g rest =>
    have hrest : (rest.map fun g => signedChars g.key.sign false g.chars) =
        (rest.zipIdx 1).map fun p =>
          (if p.2 = 0 ∧ p.1.key.sign = .plus then [] else [p.1.key.sign.symbol]) ++ p.1.chars := by
      conv_lhs => rw [← List.zipIdx_map_fst 1 rest, List.map_map]
      refine List.map_congr_left fun p hp => ?_
      have hplace : p.2 ≠ 0 := Nat.ne_of_gt (List.le_snd_of_mem_zipIdx hp)
      rw [Function.comp_apply, signedChars_eq, if_neg (by simp), if_neg fun h => hplace h.1]
    rw [parts, hrest, List.zipIdx_cons, List.map_cons, signedChars_eq]
    simp

/-- **Every base die is in one group**: the dice of all groups are the base dice in another
order. -/
theorem perm_dice (rolled : List RolledTerm) :
    ((groupKeys rolled).flatMap fun key => (baseDiceOf key rolled).flatMap RolledTerm.dice).Perm
      ((rolled.filter fun t => t.IsBaseDice).flatMap RolledTerm.dice) := by
  have hkeys : ((groupKeys rolled).map some).Nodup :=
    (nodup_groupKeys rolled).map fun _ _ => Option.some.inj
  have hmem : ∀ t ∈ rolled.filter fun t => t.IsBaseDice,
      GroupKey.of? t ∈ (groupKeys rolled).map some := by
    intro t ht
    obtain ⟨ht, hdice⟩ := List.mem_filter.mp ht
    obtain ⟨key, hof⟩ := RolledTerm.isBaseDice_iff.mp (of_decide_eq_true hdice)
    rw [hof]
    exact List.mem_map_of_mem
      (mem_groupKeys.mpr ⟨t, ht, GroupKey.of?_eq_some_iff.mp hof⟩)
  -- a term of some group is a base term with dice, so that it is found among these
  have hfilter : ∀ key, baseDiceOf key rolled =
      (rolled.filter fun t => t.IsBaseDice).filter
        fun t => GroupKey.of? t = some key := by
    intro key
    rw [← filter_of?_eq_baseDiceOf, List.filter_filter]
    refine List.filter_congr fun t _ => ?_
    rw [← Bool.decide_and]
    exact decide_eq_decide.mpr ⟨fun h => ⟨h, RolledTerm.isBaseDice_iff.mpr ⟨key, h⟩⟩, And.left⟩
  have hperm := (perm_flatMap_filter GroupKey.of? hkeys hmem).flatMap_right RolledTerm.dice
  rw [List.flatMap_map, List.flatMap_assoc] at hperm
  simpa only [hfilter] using hperm

theorem perm_flatMap_ofRolled (rolled : List RolledTerm) :
    ((ofRolled rolled).flatMap dice).Perm
      ((rolled.filter fun t => t.IsBaseDice).flatMap RolledTerm.dice) := by
  rw [ofRolled_eq_map, List.flatMap_map]
  exact perm_dice rolled

end DiceGroup

/-! ## The layout of a line -/

/-- What a line shows of the formula itself. A group shows its sign, which added dice in front leave
out, how many dice it has, their size, and the dice; behind the groups stand the constants with
their signs. -/
def baseParts (rolled : List RolledTerm) : List (List Char) :=
  (groupKeys rolled).zipIdx.map (fun (key, place) =>
    let dice := (baseDiceOf key rolled).flatMap RolledTerm.dice
    (if place = 0 ∧ key.sign = .plus then [] else [key.sign.symbol]) ++
      (Decimal.digits dice.length ++ 'd' :: Decimal.digits key.sides.toNat ++
        ' ' :: diceChars dice)) ++
  ((rolled.filter fun t => t.term.origin = .base).filterMap
    fun t => t.term.constantValue?).map fun value => Decimal.signed value.toInt

theorem breakdownParts_eq (rolled : List RolledTerm) (descriptions : List String) :
    breakdownParts rolled descriptions = baseParts rolled ++ descriptions.map String.toList := by
  rw [breakdownParts, DiceGroup.ofRolled_eq_map, DiceGroup.parts_eq_map, List.zipIdx_map,
    List.map_map]
  rfl

/-- A line shows what it tells of the formula and then the given parts, with a blank between any
two, and behind them the total with its verdict. -/
theorem describe_eq_intercalate (rolled : List RolledTerm) (evaluation : Evaluation)
    (descriptions : List String) :
    describe rolled evaluation descriptions =
      String.ofList ([' '].intercalate (baseParts rolled ++ descriptions.map String.toList) ++
        verdictChars evaluation) := by
  rw [describe, breakdownParts_eq, spaced]

/-! ## Terms in another order -/

/-- Items at new places are in the same order when they do not overtake each other. -/
theorem filter_eq_of_place {α : Type} {before after : List α}
    (place : Fin before.length ≃ Fin after.length) (same : ∀ i, after[place i] = before[i])
    {p : α → Bool}
    (inOrder : ∀ i j, p before[i] = true → p before[j] = true → i < j → place i < place j) :
    after.filter p = before.filter p := by
  -- an item is told by its place; the places of the items are sorted, and still are after the move
  have hplaces : ∀ xs : List α, xs.filter p =
      ((List.finRange xs.length).filter fun i => p xs[i]).map fun i => xs[i] := by
    intro xs
    have hall : xs = (List.finRange xs.length).map fun i => xs[i] := by
      rw [← List.ofFn_eq_map]
      exact List.ofFn_getElem.symm
    conv_lhs => rw [hall, List.filter_map]
    rfl
  have hmoved : ((List.finRange before.length).filter fun i => p before[i]).map place =
      (List.finRange after.length).filter fun i => p after[i] := by
    refine List.Perm.eq_of_pairwise (fun i j _ _ hij hji => absurd hji (lt_asymm hij)) ?_
      ((List.pairwise_lt_finRange _).filter _) ?_
    · refine List.pairwise_map.mpr (((List.pairwise_lt_finRange _).filter _).imp_of_mem ?_)
      intro i j hi hj hij
      exact inOrder i j (List.mem_filter.mp hi).2 (List.mem_filter.mp hj).2 hij
    · rw [List.perm_ext_iff_of_nodup
        (((List.nodup_finRange _).filter _).map place.injective) ((List.nodup_finRange _).filter _)]
      intro j
      obtain ⟨i, rfl⟩ := place.surjective j
      rw [List.mem_map_of_injective place.injective, List.mem_filter, List.mem_filter, same]
      simp only [List.mem_finRange]
  rw [hplaces, ← hmoved, List.map_map, hplaces]
  exact List.map_congr_left fun i _ => same i

/-- The same rolled terms in another order: where each one goes. Base dice of one size and sign do
not overtake each other, nor do base constants; all other terms go anywhere. -/
structure BaseReordering (before after : List RolledTerm) where
  /-- the new place of a term -/
  place : Fin before.length ≃ Fin after.length
  /-- at its new place stands the same term -/
  same : ∀ i, after[place i] = before[i]
  /-- dice of one size and sign stay in order -/
  dice : ∀ i j, before[i].IsBaseDice → before[j].IsBaseDice →
    before[i].sides? = before[j].sides? → before[i].term.sign = before[j].term.sign →
    i < j → place i < place j
  /-- constants stay in order -/
  constants : ∀ i j, before[i].IsBaseConstant → before[j].IsBaseConstant → i < j →
    place i < place j

theorem baseConstants_eq_filterMap (rolled : List RolledTerm) :
    baseConstants rolled =
      (rolled.filter fun t => t.IsBaseConstant).filterMap (·.term.constantValue?) := by
  rw [baseConstants, List.filterMap_filter, List.filterMap_filter]
  refine List.filterMap_congr fun t _ => ?_
  cases hvalue : t.term.constantValue? with
  | none => simp
  | some value =>
    simp [RolledTerm.IsBaseConstant, Term.isDice_eq_isNone_constantValue?, hvalue]

namespace BaseReordering

variable {before after : List RolledTerm} (r : BaseReordering before after)

include r

theorem baseDiceOf_eq (key : GroupKey) : baseDiceOf key after = baseDiceOf key before := by
  refine filter_eq_of_place r.place r.same fun i j hi hj => ?_
  obtain ⟨hbase, hsides, hsign⟩ := of_decide_eq_true hi
  obtain ⟨hbase', hsides', hsign'⟩ := of_decide_eq_true hj
  have hi := RolledTerm.isBaseDice_of_sides? hbase hsides
  have hj := RolledTerm.isBaseDice_of_sides? hbase' hsides'
  exact r.dice i j hi hj (hsides.trans hsides'.symm) (hsign.trans hsign'.symm)

theorem groupKeys_eq : groupKeys after = groupKeys before := by
  have hmem : ∀ rolled key, key ∈ groupKeys rolled ↔ ∃ t, t ∈ baseDiceOf key rolled := by
    intro rolled key
    rw [mem_groupKeys]
    refine exists_congr fun t => ?_
    rw [baseDiceOf, List.mem_filter, decide_eq_true_iff]
  refine List.Perm.eq_of_pairwise ?_ (pairwise_ranked GroupKey.ranking _)
    (pairwise_ranked GroupKey.ranking _) ?_
  · intro a b _ _ hab hba
    exact absurd (GroupKey.ranking.trans hab hba) (GroupKey.ranking.irrefl a)
  · rw [List.perm_ext_iff_of_nodup (nodup_groupKeys _) (nodup_groupKeys _)]
    intro key
    rw [hmem, hmem, r.baseDiceOf_eq]

theorem ofRolled_eq : DiceGroup.ofRolled after = DiceGroup.ofRolled before := by
  rw [DiceGroup.ofRolled_eq_map, DiceGroup.ofRolled_eq_map, r.groupKeys_eq]
  exact List.map_congr_left fun key _ => by rw [r.baseDiceOf_eq]

theorem baseConstants_eq : baseConstants after = baseConstants before := by
  have hfilter : (after.filter fun t => t.IsBaseConstant) =
      before.filter fun t => t.IsBaseConstant := by
    refine filter_eq_of_place r.place r.same fun i j hi hj => ?_
    exact r.constants i j (of_decide_eq_true hi) (of_decide_eq_true hj)
  rw [baseConstants_eq_filterMap, baseConstants_eq_filterMap, hfilter]

/-- The line shows the same base dice and base constants. -/
theorem describe_eq (evaluation : Evaluation) (descriptions : List String) :
    describe after evaluation descriptions = describe before evaluation descriptions := by
  rw [describe, describe, breakdownParts, breakdownParts, r.ofRolled_eq, r.baseConstants_eq]

end BaseReordering

/-! ## The line -/

/-- **The base dice of the line are a sorted partition of the rolled base dice.** The line is made
of parts with a blank between. First come the groups: one for each size and sign of base dice, none
twice, larger dice first and added before subtracted dice of one size. A group shows how many dice
it has and all dice of the base terms of its size and sign in the order of the formula; only a group
of added dice in front has no sign. Then come the base constants with their signs, and then the
given descriptions. A roll in another order, with no overtaking among the dice of a group nor among
the constants, has the same line. -/
theorem describe_groups :
    (∀ (rolled : List RolledTerm) (evaluation : Evaluation) (descriptions : List String),
      ∃ keys : List GroupKey,
        (∀ key, key ∈ keys ↔ ∃ t ∈ rolled, t.term.origin = .base ∧ t.sides? = some key.sides ∧
          t.term.sign = key.sign) ∧
        keys.Nodup ∧
        keys.Pairwise (fun a b =>
          b.sides < a.sides ∨ a.sides = b.sides ∧ a.sign = .plus ∧ b.sign = .minus) ∧
        (keys.flatMap fun key => (baseDiceOf key rolled).flatMap RolledTerm.dice).Perm
          ((rolled.filter fun t => t.IsBaseDice).flatMap RolledTerm.dice) ∧
        describe rolled evaluation descriptions =
          String.ofList (spaced (
            keys.zipIdx.map (fun (key, place) =>
              let dice := (baseDiceOf key rolled).flatMap RolledTerm.dice
              (if place = 0 ∧ key.sign = .plus then [] else [key.sign.symbol]) ++
                (Decimal.digits dice.length ++ 'd' :: Decimal.digits key.sides.toNat ++
                  ' ' :: diceChars dice)) ++
            ((rolled.filter fun t => t.term.origin = .base).filterMap
              fun t => t.term.constantValue?).map (fun value => Decimal.signed value.toInt) ++
            descriptions.map String.toList) ++ verdictChars evaluation)) ∧
    ∀ before after : List RolledTerm, BaseReordering before after →
      ∀ (evaluation : Evaluation) (descriptions : List String),
        describe after evaluation descriptions = describe before evaluation descriptions := by
  refine ⟨?_, fun before after r => r.describe_eq⟩
  intro rolled evaluation descriptions
  refine ⟨groupKeys rolled, fun key => mem_groupKeys, nodup_groupKeys rolled,
    pairwise_groupKeys rolled, DiceGroup.perm_dice rolled, ?_⟩
  rw [describe, breakdownParts_eq]
  rfl

/-- Terms of two groups, two constants and a die of a modifier, all moved: the line stays. -/
theorem describe_groups_moved :
    let before : List RolledTerm :=
      [⟨.dice .plus 1 20, .dice [⟨[17], false⟩]⟩,
        ⟨⟨.minus, .constant 2, .base⟩, .constant (-2)⟩,
        ⟨⟨.plus, .dice 1 20, .modifier 0⟩, .dice [⟨[6], false⟩]⟩,
        ⟨.dice .minus 1 20, .dice [⟨[2], false⟩]⟩,
        ⟨.dice .plus 1 20, .dice [⟨[5], false⟩]⟩,
        ⟨⟨.plus, .constant 4, .base⟩, .constant 4⟩,
        ⟨.dice .plus 1 4, .dice [⟨[3], false⟩]⟩]
    let after : List RolledTerm :=
      [⟨.dice .plus 1 4, .dice [⟨[3], false⟩]⟩,
        ⟨⟨.minus, .constant 2, .base⟩, .constant (-2)⟩,
        ⟨.dice .plus 1 20, .dice [⟨[17], false⟩]⟩,
        ⟨⟨.plus, .dice 1 20, .modifier 0⟩, .dice [⟨[6], false⟩]⟩,
        ⟨.dice .minus 1 20, .dice [⟨[2], false⟩]⟩,
        ⟨.dice .plus 1 20, .dice [⟨[5], false⟩]⟩,
        ⟨⟨.plus, .constant 4, .base⟩, .constant 4⟩]
    Nonempty (BaseReordering before after) ∧
      describe after ⟨31, some true, some 20⟩ ["+6 Bless (1d20 [6])"] =
        "2d20 [17, 5] -1d20 [2] +1d4 [3] -2 +4 +6 Bless (1d20 [6]) = 31 vs 20 (✅)" := by
  intro before after
  let r : BaseReordering before after :=
    ⟨(Equiv.swap 0 1).trans (finRotate 7), by decide, by decide, by decide⟩
  refine ⟨⟨r⟩, (describe_groups.2 before after r _ _).trans ?_⟩
  decide

end Tabletop
