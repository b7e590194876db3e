import Tabletop.Proofs.Formula.Bounds
import Tabletop.Proofs.Groups
import Tabletop.Proofs.Modifier.Blocks
import Tabletop.Proofs.Total

/-!
# The line adds up

A line tells of base dice in groups, of base constants one by one, and of every modifier by an
amount. Each rolled term is told of in one place, so that the numbers of the line add up to its
total; the net of the whole numbers is told of by the amounts of their modifiers.

* `LinePart`, `RolledTerm.part` — the part of the line that tells of a rolled term.
* `LinePart.sum_all` — the parts add up to the whole roll, as every rolled term is in one of them.
* `DiceGroup.worth` — what a dice group counts for; `leadingNumber?` — the number at the front of a
  text.
* `ModifierShare.toInt_amount_of` — the amount of a modifier: its whole number, or what it rolled.
* `breakdown_total` — the line group by group, with every base die in one of them; groups, constants
  and amounts add up to the total.
-/

namespace Tabletop

/-! ## Parts of the line -/

/-- A part of the line: a group of base dice, the base constants, or a modifier. The net of the
whole numbers has none of its own. -/
inductive LinePart where
  | group (key : GroupKey)
  | constant
  | modifier (index : Nat)
  | net
  deriving DecidableEq

/-- The part of the line that tells of a rolled term. -/
def RolledTerm.part (t : RolledTerm) : LinePart :=
  match t.term.origin with
  | .base =>
    match t.sides? with
    | some sides => .group ⟨sides, t.term.sign⟩
    | none => .constant
  | .modifier index => .modifier index
  | .netModifier => .net

section Parts

variable {t : RolledTerm}

theorem part_eq_group_iff {key : GroupKey} : t.part = .group key ↔ GroupKey.of? t = some key := by
  rw [RolledTerm.part, GroupKey.of?]
  cases t.term.origin <;> cases t.sides? <;> simp

theorem part_eq_constant_iff :
    t.part = .constant ↔ t.term.origin = .base ∧ t.term.constantValue?.isSome = true := by
  rw [RolledTerm.part, RolledTerm.sides?, Term.sides?, Term.constantValue?]
  cases t.term.origin <;> cases t.term.kind <;> simp

theorem part_eq_modifier_iff {index : Nat} :
    t.part = .modifier index ↔ t.term.origin = .modifier index := by
  rw [RolledTerm.part]
  cases t.term.origin <;> cases t.sides? <;> simp

theorem part_eq_net_iff : t.part = .net ↔ t.term.origin = .netModifier := by
  rw [RolledTerm.part]
  cases t.term.origin <;> cases t.sides? <;> simp

end Parts

namespace LinePart

/-- The parts of the line of a roll with some number of modifiers. -/
def all (rolled : List RolledTerm) (count : Nat) : List LinePart :=
  (ranked GroupKey.before (rolled.filterMap GroupKey.of?)).map group ++
    constant :: net :: (List.range count).map modifier

theorem nodup_all (rolled : List RolledTerm) (count : Nat) : (all rolled count).Nodup := by
  have hgroups : ((ranked GroupKey.before (rolled.filterMap GroupKey.of?)).map group).Nodup :=
    (nodup_ranked GroupKey.ranking _).map fun _ _ => group.inj
  have hmodifiers : ((List.range count).map modifier).Nodup :=
    List.nodup_range.map fun _ _ => modifier.inj
  refine List.nodup_append.mpr ⟨hgroups, ?_, ?_⟩
  · simp [hmodifiers]
  · intro p hp q hq
    obtain ⟨key, -, rfl⟩ := List.mem_map.mp hp
    rintro rfl
    simp at hq

/-- Every rolled term is told of in one of the parts. -/
theorem part_mem_all {rolled : List RolledTerm} {count : Nat}
    (h : ∀ t ∈ rolled, ∀ index, t.term.origin = .modifier index → index < count) :
    ∀ t ∈ rolled, t.part ∈ all rolled count := by
  intro t ht
  cases hpart : t.part with
  | group key =>
    have hkey : key ∈ ranked GroupKey.before (rolled.filterMap GroupKey.of?) :=
      (mem_ranked GroupKey.ranking).mpr
        (List.mem_filterMap.mpr ⟨t, ht, part_eq_group_iff.mp hpart⟩)
    exact List.mem_append_left _ (List.mem_map_of_mem hkey)
  | constant => simp [all]
  | net => simp [all]
  | modifier index => simp [all, h t ht index (part_eq_modifier_iff.mp hpart)]

end LinePart

/-! ## Numbers of the parts -/

/-- What the rolled terms of one part add up to. -/
def LinePart.sum (rolled : List RolledTerm) (p : LinePart) : Int :=
  Amount.exactSum ((rolled.filter fun t => t.part = p).map RolledTerm.value)

/-- **The parts add up to the whole roll.** -/
theorem LinePart.sum_all {rolled : List RolledTerm} {count : Nat}
    (h : ∀ t ∈ rolled, ∀ index, t.term.origin = .modifier index → index < count) :
    ((all rolled count).map (sum rolled)).sum =
      Amount.exactSum (rolled.map RolledTerm.value) := by
  have hperm := perm_flatMap_filter RolledTerm.part (nodup_all rolled count) (part_mem_all h)
  rw [← Amount.exactSum_eq_of_perm (hperm.map RolledTerm.value), List.map_flatMap,
    Amount.exactSum_flatMap]
  rfl

/-- What a dice group counts for: the faces of its dice, with its sign. -/
def DiceGroup.worth (g : DiceGroup) : Int :=
  g.key.sign.signed (faceSum (g.dice.flatMap RolledDie.rolls))

theorem Sign.signed_add (sign : Sign) (a b : Int) :
    sign.signed (a + b) = sign.signed a + sign.signed b := by
  cases sign with
  | plus => rfl
  | minus => exact Int.neg_add

theorem Sign.signed_zero (sign : Sign) : sign.signed 0 = 0 := by
  cases sign <;> rfl

/-- Terms of one sign add up to all their faces with that sign. -/
theorem exactSum_values_of_sign {sign : Sign} {terms : List RolledTerm}
    (h : ∀ t ∈ terms, t.value.toInt = sign.signed (faceSum t.faces)) :
    Amount.exactSum (terms.map RolledTerm.value) =
      sign.signed (faceSum ((terms.flatMap RolledTerm.dice).flatMap RolledDie.rolls)) := by
  induction terms with
  | nil => exact sign.signed_zero.symm
  | cons t terms ih =>
    obtain ⟨ht, hterms⟩ := List.forall_mem_cons.mp h
    rw [List.map_cons, Amount.exactSum_cons, ht, ih hterms, List.flatMap_cons, List.flatMap_append,
      faceSum_append, Nat.cast_add, Sign.signed_add]
    rfl

section Worth

variable {rolled : List RolledTerm} (hworth : ∀ t ∈ rolled, t.value.toInt = t.worth)

include hworth

theorem LinePart.sum_group (key : GroupKey) :
    sum rolled (.group key) =
      DiceGroup.worth ⟨key, (rolled.filter fun t => GroupKey.of? t = some key).flatMap
        RolledTerm.dice⟩ := by
  have hfilter : (rolled.filter fun t => t.part = .group key) =
      rolled.filter fun t => GroupKey.of? t = some key :=
    List.filter_congr fun t _ => decide_eq_decide.mpr part_eq_group_iff
  rw [sum, hfilter, DiceGroup.worth]
  refine exactSum_values_of_sign fun t ht => ?_
  obtain ⟨ht, hkey⟩ := List.mem_filter.mp ht
  obtain ⟨-, hsides, hsign⟩ := GroupKey.of?_eq_some_iff.mp (of_decide_eq_true hkey)
  rw [hworth t ht, RolledTerm.worth, ← hsign]
  cases hkind : t.term.kind with
  | constant value => simp [RolledTerm.sides?, Term.sides?, hkind] at hsides
  | dice count sides => exact Term.worth_of_dice hkind t.faces

/-- The groups of the line add up to their parts. -/
theorem LinePart.sum_groups :
    (((ranked GroupKey.before (rolled.filterMap GroupKey.of?)).map group).map (sum rolled)).sum =
      ((DiceGroup.ofRolled rolled).map DiceGroup.worth).sum := by
  rw [List.map_map, DiceGroup.ofRolled, List.map_map]
  exact congrArg List.sum (List.map_congr_left fun key _ => sum_group hworth key)

/-- The constants of the line are the values of their part. -/
theorem baseConstants_eq (hrange : ∀ t ∈ rolled, t.term.kind.InRange) :
    baseConstants rolled = (rolled.filter fun t => t.part = .constant).map RolledTerm.value := by
  rw [baseConstants, List.filterMap_filter, ← List.filterMap_eq_map, List.filterMap_filter]
  refine List.filterMap_congr fun t ht => ?_
  cases hvalue : t.term.constantValue? with
  | none => simp [part_eq_constant_iff, hvalue]
  | some value =>
    have hsame := RolledTerm.value_eq_of_constantValue? (hworth t ht) (hrange t ht) hvalue
    simp [part_eq_constant_iff, hvalue, hsame]

end Worth

/-! ## Amounts of modifiers -/

theorem filter_part_modifier (rolled : List RolledTerm) (index : Nat) :
    (rolled.filter fun t => t.part = .modifier index) =
      rolled.filter fun t => t.term.origin = .modifier index :=
  List.filter_congr fun _ _ => decide_eq_decide.mpr part_eq_modifier_iff

theorem LinePart.sum_modifier_of_forall_ne {rolled : List RolledTerm} {index : Nat}
    (h : ∀ t ∈ rolled, t.term.origin ≠ .modifier index) : sum rolled (.modifier index) = 0 := by
  rw [sum, filter_part_modifier, filter_origin_eq_nil h]
  rfl

/-- **The amount of a modifier** is its whole number or what its terms add up to. -/
theorem ModifierShare.toInt_amount_of {rolled : List RolledTerm} {index : Nat} {m : Modifier}
    (hweight : (Amount.weight (rolled.map RolledTerm.value) : Int) ≤ Amount.greatest)
    (hinteger : ∀ amount, m.value = .integer amount →
      ∀ t ∈ rolled, t.term.origin ≠ .modifier index) :
    (of rolled index m).amount.toInt =
      m.integer?.elim 0 Int64.toInt + LinePart.sum rolled (.modifier index) := by
  cases hvalue : m.value with
  | integer amount =>
    rw [of_integer hvalue, LinePart.sum_modifier_of_forall_ne (hinteger amount hvalue),
      Modifier.integer?, hvalue, Int.add_zero]
    rfl
  | dice expression =>
    rw [Modifier.integer?_of_dice hvalue, Option.elim_none, Int.zero_add]
    by_cases hsome : ∃ t ∈ rolled, t.term.origin = .modifier index
    · have hsublist : ((rolled.filter fun t => t.term.origin = .modifier index).map
          RolledTerm.value).Sublist (rolled.map RolledTerm.value) := List.filter_sublist.map _
      have hterms := Amount.weight_le_of_sublist hsublist
      rw [of_rolled hvalue hsome, amount, Amount.toInt_total_of_weight_le (by omega), LinePart.sum,
        filter_part_modifier]
    · have hnone : ∀ t ∈ rolled, t.term.origin ≠ .modifier index :=
        fun t ht horigin => hsome ⟨t, ht, horigin⟩
      rw [of_inert hvalue hnone, LinePart.sum_modifier_of_forall_ne hnone]
      rfl

theorem Modifier.exactSum_filterMap_integer? (modifiers : List Modifier) :
    Amount.exactSum (modifiers.filterMap integer?) =
      (modifiers.map fun m => m.integer?.elim 0 Int64.toInt).sum := by
  induction modifiers with
  | nil => rfl
  | cons m rest ih =>
    rw [List.filterMap_cons, List.map_cons, List.sum_cons, ← ih]
    cases m.integer? with
    | none => exact (Int.zero_add _).symm
    | some amount => exact Amount.exactSum_cons amount _

/-- The amounts of modifiers, in exact numbers. -/
def modifierNumbers (modifiers : List Modifier) (rolled : List RolledTerm) : List Int :=
  modifiers.zipIdx.map fun p => (ModifierShare.of rolled p.2 p.1).amount.toInt

/-- The amounts of all modifiers add up to the whole numbers and what the expressions rolled. -/
theorem sum_modifierNumbers {rolled : List RolledTerm} {modifiers : List Modifier}
    (hweight : (Amount.weight (rolled.map RolledTerm.value) : Int) ≤ Amount.greatest)
    (hinteger : ∀ p ∈ modifiers.zipIdx, ∀ amount, p.1.value = .integer amount →
      ∀ t ∈ rolled, t.term.origin ≠ .modifier p.2) :
    (modifierNumbers modifiers rolled).sum =
      Amount.exactSum (modifiers.filterMap Modifier.integer?) +
        (((List.range modifiers.length).map LinePart.modifier).map (LinePart.sum rolled)).sum := by
  have hfst : (modifiers.zipIdx.map fun p => p.1.integer?.elim 0 Int64.toInt) =
      modifiers.map fun m => m.integer?.elim 0 Int64.toInt := by
    conv_rhs => rw [← List.zipIdx_map_fst 0 modifiers, List.map_map]
    rfl
  have hsnd : (modifiers.zipIdx.map fun p => LinePart.sum rolled (.modifier p.2)) =
      ((List.range modifiers.length).map LinePart.modifier).map (LinePart.sum rolled) := by
    rw [List.range_eq_range', ← List.zipIdx_map_snd, List.map_map, List.map_map]
    rfl
  rw [modifierNumbers, List.map_congr_left fun p hp =>
      ModifierShare.toInt_amount_of hweight (hinteger p hp), List.sum_map_add, hfst, hsnd,
    Modifier.exactSum_filterMap_integer?]

/-! ## The net -/

/-- The term of the net is the only one with its origin. -/
theorem Formula.filter_netModifier_combineWith {policy : BoundsPolicy} {base : Formula}
    (hbase : ∀ t ∈ base.terms, t.origin = .base) (modifiers : List Modifier) :
    ((base.combineWith policy modifiers).terms.filter fun t => t.origin = .netModifier) =
      Modifier.netTerms modifiers := by
  have hfront : (base.terms.filter fun t => t.origin = .netModifier) = [] := by
    refine List.filter_eq_nil_iff.mpr fun t ht => ?_
    simp [hbase t ht]
  have hadded : ((Modifier.addedFrom policy 0 modifiers).filter fun t =>
      t.origin = .netModifier) = [] := by
    refine List.filter_eq_nil_iff.mpr fun t ht => ?_
    obtain ⟨k, -, -, -, horigin⟩ := Modifier.origin_of_mem_addedFrom ht
    simp [horigin]
  have hnet : ((Modifier.netTerms modifiers).filter fun t => t.origin = .netModifier) =
      Modifier.netTerms modifiers := by
    refine List.filter_eq_self.mpr fun t ht => ?_
    simp [Modifier.origin_of_mem_netTerms ht]
  rw [combineWith, List.filter_append, List.filter_append, hfront, hadded, hnet]
  rfl

/-- The rolled term of the net counts for all whole numbers together. -/
theorem LinePart.sum_net {rolled : List RolledTerm}
    (hworth : ∀ t ∈ rolled, t.value.toInt = t.worth)
    (hrange : ∀ t ∈ rolled, t.term.kind.InRange) {policy : BoundsPolicy} {base : Formula}
    (hbase : ∀ t ∈ base.terms, t.origin = .base) {modifiers : List Modifier}
    (hterms : rolled.map RolledTerm.term = (base.combineWith policy modifiers).terms)
    (hweight : (Amount.weight (modifiers.filterMap Modifier.integer?) : Int) ≤ Amount.greatest) :
    sum rolled .net = Amount.exactSum (modifiers.filterMap Modifier.integer?) := by
  have hnet : (rolled.filter fun t => t.part = .net).map RolledTerm.term =
      Modifier.netTerms modifiers := by
    have hfilter : (rolled.filter fun t => t.part = .net) =
        rolled.filter ((fun t : Term => decide (t.origin = .netModifier)) ∘ RolledTerm.term) :=
      List.filter_congr fun _ _ => decide_eq_decide.mpr part_eq_net_iff
    rw [hfilter, ← List.filter_map, hterms, Formula.filter_netModifier_combineWith hbase]
  rw [sum]
  rcases Modifier.net_netTerms modifiers with
    ⟨hamounts, hnone⟩ | ⟨-, t, value, hone, -, hvalue, hint⟩
  · rw [hnone, List.map_eq_nil_iff] at hnet
    rw [hnet, hamounts]
    rfl
  · rw [hone] at hnet
    obtain ⟨r, hfilter, rfl⟩ := List.map_eq_singleton_iff.mp hnet
    have hmem : r ∈ rolled.filter fun t => t.part = .net := by
      rw [hfilter]
      exact List.mem_singleton_self r
    have hr := List.mem_of_mem_filter hmem
    have hsame := RolledTerm.value_eq_of_constantValue? (hworth r hr) (hrange r hr) hvalue
    have hsum := Amount.natAbs_exactSum_le (modifiers.filterMap Modifier.integer?)
    rw [hfilter, List.map_singleton, Amount.exactSum_cons, Amount.exactSum_nil, hsame, hint,
      Amount.toInt_total_of_weight_le hweight]
    omega

/-! ## The whole line -/

/-- **Groups, constants and amounts add up to the roll**: each rolled term is told of once. -/
theorem Formula.exactSum_roll_combineWith {σ : Type} {source : DieSource σ}
    (hsource : source.ShowsFaces) (explosions : Explosions) (policy : BoundsPolicy)
    {base : Formula} (hbase : ∀ t ∈ base.terms, t.origin = .base)
    (hrange : ∀ t ∈ base.terms, t.kind.InRange) (modifiers : List Modifier) (s : σ)
    {rolled : List RolledTerm}
    (hrolled : ((base.combineWith policy modifiers).roll source explosions s).1 = rolled)
    (hvalues : (Amount.weight (rolled.map RolledTerm.value) : Int) ≤ Amount.greatest)
    (hintegers : (Amount.weight (modifiers.filterMap Modifier.integer?) : Int) ≤ Amount.greatest) :
    Amount.exactSum (rolled.map RolledTerm.value) =
      ((DiceGroup.ofRolled rolled).map DiceGroup.worth).sum +
        Amount.exactSum (baseConstants rolled) + (modifierNumbers modifiers rolled).sum := by
  have hcombined : ∀ t ∈ (base.combineWith policy modifiers).terms, t.kind.InRange :=
    inRange_combineWith hrange modifiers
  have hterms := hrolled ▸ (base.combineWith policy modifiers).map_term_roll source explosions s
  have hmem : ∀ t ∈ rolled, t.term ∈ (base.combineWith policy modifiers).terms := by
    rw [← hterms]
    exact fun t ht => List.mem_map_of_mem ht
  have hworth : ∀ t ∈ rolled, t.value.toInt = t.worth := by
    rw [← hrolled]
    exact fun t ht => toInt_value_of_mem_roll hsource explosions hcombined s ht
  have hkinds : ∀ t ∈ rolled, t.term.kind.InRange := fun t ht => hcombined t.term (hmem t ht)
  have hindex : ∀ t ∈ rolled, ∀ index, t.term.origin = .modifier index →
      index < modifiers.length := by
    intro t ht index horigin
    obtain ⟨m, hm, -⟩ := exists_of_mem_combineWith hbase (hmem t ht) horigin
    exact (List.getElem?_eq_some_iff.mp hm).1
  -- no term came from a whole number, which is part of the net
  have hinteger : ∀ p ∈ modifiers.zipIdx, ∀ amount, p.1.value = .integer amount →
      ∀ t ∈ rolled, t.term.origin ≠ .modifier p.2 := by
    intro p hp amount hvalue t ht horigin
    have hadded := (Modifier.mem_combineWith_iff hbase (List.mem_zipIdx_iff_getElem?.mp hp)).mp
      ⟨hmem t ht, horigin⟩
    rw [Modifier.addedTerms_of_integer hvalue] at hadded
    cases hadded
  rw [sum_modifierNumbers hvalues hinteger, ← LinePart.sum_all hindex, LinePart.all,
    List.map_append, List.sum_append, LinePart.sum_groups hworth, List.map_cons, List.map_cons,
    List.sum_cons, List.sum_cons, LinePart.sum_net hworth hkinds hbase hterms hintegers,
    baseConstants_eq hworth hkinds]
  exact (Int.add_assoc ..).symm

/-- The number that a text starts with: what stands in front of its first blank. -/
def leadingNumber? (text : String) : Option Int :=
  Decimal.integer? (text.toList.takeWhile (· ≠ ' '))

theorem ModifierShare.leadingNumber?_text (share : ModifierShare) :
    leadingNumber? share.text = some share.amount.toInt := by
  have hsigned : ∀ c ∈ Decimal.signed share.amount.toInt, decide (c ≠ ' ') = true := by
    intro c hc
    refine decide_eq_true ?_
    rintro rfl
    exact Decimal.blank_notMem_signed _ hc
  rw [leadingNumber?, text, String.toList_ofList, List.takeWhile_append_of_pos hsigned,
    List.takeWhile_cons_of_neg (by simp), List.append_nil, Decimal.integer?_signed]

theorem map_leadingNumber?_modifierDescriptions (modifiers : List Modifier)
    (rolled : List RolledTerm) :
    (modifierDescriptions modifiers rolled).map leadingNumber? =
      (modifierNumbers modifiers rolled).map some := by
  rw [modifierDescriptions, ModifierShare.listFrom_eq_map, modifierNumbers, List.map_map,
    List.map_map, List.map_map]
  refine List.map_congr_left fun p _ => ?_
  rw [Function.comp_apply, Function.comp_apply, ModifierShare.leadingNumber?_text,
    Function.comp_apply]

/-- The number of a whole number is that number, and that of an inert expression is zero. -/
theorem forall₂_modifierNumbers {σ : Type} (source : DieSource σ) (explosions : Explosions)
    (policy : BoundsPolicy) {base : Formula} (hbase : ∀ t ∈ base.terms, t.origin = .base)
    (modifiers : List Modifier) (s : σ) :
    List.Forall₂ (fun m n => (∀ amount, m.value = .integer amount → n = amount.toInt) ∧
        (m.isInert policy = true → n = 0)) modifiers
      (modifierNumbers modifiers
        ((base.combineWith policy modifiers).roll source explosions s).1) := by
  conv => arg 2; rw [← List.zipIdx_map_fst 0 modifiers]
  rw [modifierNumbers, List.forall₂_map_left_iff, List.forall₂_map_right_iff]
  refine List.forall₂_same.mpr fun p hp => ⟨fun amount hvalue => ?_, fun hinert => ?_⟩
  · rw [ModifierShare.of_integer hvalue, ModifierShare.amount]
  · obtain ⟨expression, e, hvalue, hread⟩ := Modifier.isInert_iff.mp hinert
    have hnone := (Formula.forall_rolled_origin_ne_iff source explosions policy hbase
      (List.mem_zipIdx_iff_getElem?.mp hp) hvalue s).mpr ⟨e, hread⟩
    rw [ModifierShare.of_inert hvalue hnone]
    rfl

/-- **The line adds up to the total.** Take a summed roll, of dice that show faces between one and
their sides, whose values and whole numbers have distances from zero that add up to an amount. Its
line is made of dice groups, constants and one text for each modifier, with blanks between. A group
shows its sign, which an added group in front leaves out, how many dice it has, their size, and all
of them; the dice of the groups are the base dice. A text starts with a number: the modifier's whole
number, zero for an expression that cannot be read. The faces of the groups, with their signs, the
constants and the numbers add up to the total. -/
theorem breakdown_total {σ : Type} {source : DieSource σ} (hsource : source.ShowsFaces)
    {config : Config} (hmechanic : config.mechanic ≠ .dicePool) {request : Request} {s : σ}
    {o : Outcome} (h : (resolve source config request s).1 = .ok o)
    (hweight : (Amount.weight (o.rolledTerms.map RolledTerm.value) +
      Amount.weight (request.modifiers.filterMap Modifier.integer?) : Int) ≤ Amount.greatest) :
    let groups := DiceGroup.ofRolled o.rolledTerms
    let constants := (o.rolledTerms.filter fun t => t.term.origin = .base).filterMap
      fun t => t.term.constantValue?
    let texts := modifierDescriptions request.modifiers o.rolledTerms
    (∃ against, o.description = String.ofList ([' '].intercalate (
        groups.zipIdx.map (fun (g, place) =>
          (if place = 0 ∧ g.key.sign = .plus then [] else [g.key.sign.symbol]) ++
            (Decimal.digits g.dice.length ++ 'd' :: Decimal.digits g.key.sides.toNat ++
              ' ' :: diceChars g.dice)) ++
        constants.map (fun value => Decimal.signed value.toInt) ++ texts.map String.toList) ++
          verdictChars ⟨o.total, o.success, against⟩)) ∧
      (groups.flatMap DiceGroup.dice).Perm
        ((o.rolledTerms.filter fun t => t.IsBaseDice).flatMap RolledTerm.dice) ∧
      ∃ numbers : List Int, texts.map leadingNumber? = numbers.map some ∧
        List.Forall₂ (fun m n => (∀ amount, m.value = .integer amount → n = amount.toInt) ∧
          (m.isInert config.bounds = true → n = 0)) request.modifiers numbers ∧
        o.total.toInt =
          (groups.map DiceGroup.worth).sum + (constants.map Int64.toInt).sum + numbers.sum := by
  intro groups constants texts
  obtain ⟨base, evaluation, hread, hevaluation, rfl⟩ := exists_of_resolve_ok h
  have hwell := Formula.wellFormed_of_readWith hread
  dsimp only [Outcome.ofEvaluation] at hweight
  refine ⟨⟨evaluation.against, ?_⟩, DiceGroup.perm_flatMap_ofRolled _,
    modifierNumbers request.modifiers _, map_leadingNumber?_modifierDescriptions _ _,
    forall₂_modifierNumbers source _ _ hwell.base request.modifiers s, ?_⟩
  · dsimp only [Outcome.ofEvaluation]
    rw [describe, breakdownParts, DiceGroup.parts_eq_map]
    rfl
  have hexact := Formula.exactSum_roll_combineWith hsource (config.overriddenBy request).explosions
    (config.overriddenBy request).bounds hwell.base hwell.inRange request.modifiers s rfl
    (by omega) (by omega)
  rw [← Amount.toInt_total_of_weight_le (by omega)] at hexact
  exact (congrArg Int64.toInt (Evaluation.total_of_ne_dicePool hevaluation hmechanic)).trans hexact

/-- Dice of two signs, one of them exploded, a constant, and all kinds of modifiers. -/
theorem breakdown_total_exploded :
    let request : Request := ⟨some "2d6-1d4+3", [⟨"Str", .integer 2⟩, ⟨"Bless", .dice "1d4"⟩,
      ⟨"Typo", .dice "1x4"⟩], none, none⟩
    let config : Config := { exploding := true }
    Script.source.ShowsFaces ∧ config.mechanic ≠ .dicePool ∧
      ∃ o, (resolve Script.source config request ⟨[6, 5, 2, 3, 1], 0⟩).1 = .ok o ∧
        (Amount.weight (o.rolledTerms.map RolledTerm.value) +
          Amount.weight (request.modifiers.filterMap Modifier.integer?) : Int) ≤ Amount.greatest ∧
        o.description =
          "2d6 [[6+5], 2] -1d4 [3] +3 +2 Str +1 Bless (1d4 [1]) +0 Typo (invalid: 1x4) = 16" ∧
        (DiceGroup.ofRolled o.rolledTerms).map DiceGroup.worth = [13, -3] ∧
        ∃ numbers : List Int, (modifierDescriptions request.modifiers o.rolledTerms).map
          leadingNumber? = numbers.map some ∧ o.total.toInt = 13 + -3 + 3 + numbers.sum := by
  intro request config
  have h : ∃ o, (resolve Script.source config request ⟨[6, 5, 2, 3, 1], 0⟩).1 = .ok o ∧
      o.description =
        "2d6 [[6+5], 2] -1d4 [3] +3 +2 Str +1 Bless (1d4 [1]) +0 Typo (invalid: 1x4) = 16" ∧
      o.rolledTerms = [⟨.dice .plus 2 6, .dice [⟨[6, 5], false⟩, ⟨[2], false⟩]⟩,
        ⟨.dice .minus 1 4, .dice [⟨[3], false⟩]⟩, ⟨⟨.plus, .constant 3, .base⟩, .constant 3⟩,
        ⟨⟨.plus, .dice 1 4, .modifier 1⟩, .dice [⟨[1], false⟩]⟩,
        ⟨⟨.plus, .constant 2, .netModifier⟩, .constant 2⟩] :=
    ⟨⟨"2d6-1d4+3+1d4+2", 16, none, _,
      "2d6 [[6+5], 2] -1d4 [3] +3 +2 Str +1 Bless (1d4 [1]) +0 Typo (invalid: 1x4) = 16", 1, 0,
      [.inertModifier "Typo" "invalid dice format: '1x4' (expected something like 2d6+3)"]⟩,
      by decide, rfl, rfl⟩
  have hfaces := Script.source_fair.showsFaces
  have hmechanic : config.mechanic ≠ .dicePool := by decide
  obtain ⟨o, ho, hline, hrolled⟩ := h
  have hweight : (Amount.weight (o.rolledTerms.map RolledTerm.value) +
      Amount.weight (request.modifiers.filterMap Modifier.integer?) : Int) ≤ Amount.greatest := by
    rw [hrolled]
    decide
  have hgroups : (DiceGroup.ofRolled o.rolledTerms).map DiceGroup.worth = [13, -3] := by
    rw [hrolled]
    decide
  have hconstants : ((o.rolledTerms.filter fun t => t.term.origin = .base).filterMap
      fun t => t.term.constantValue?) = [3] := by
    rw [hrolled]
    decide
  obtain ⟨-, -, numbers, hnumbers, -, htotal⟩ := breakdown_total hfaces hmechanic ho hweight
  rw [hgroups, hconstants] at htotal
  exact ⟨hfaces, hmechanic, o, ho, hweight, hline, hgroups, numbers, hnumbers, htotal⟩

end Tabletop
