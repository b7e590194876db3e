import Tabletop.Proofs.Modifier.Blocks
import Tabletop.Proofs.Total

/-!
# The net of the whole numbers

The whole numbers of a request are one constant, which is rolled behind everything else and without
dice. One more of them changes that constant alone, and with it the total: by its own value, as long
as no sum stops at an end of the range. The least amount is apart. Its distance from zero is no
amount, so that a net of it counts for the amount next to it.

* `Term.rolledConstant` — what a constant rolls, whatever the source.
* `Formula.roll_combineWith` — a combined formula rolls its net last.
* `Modifier.exactSum_rolledNet` — what the net counts for.
* `resolve_integer_appended` — a request, and the same request with one more whole number.
-/

namespace Tabletop

/-! ## Rolling constants -/

/-- What a constant rolls: its signed amount, and no dice. -/
def Term.rolledConstant (t : Term) : RolledTerm :=
  ⟨t, .constant (t.constantValue?.getD 0)⟩

/-- Constants roll the same from every source, and draw nothing. -/
theorem rollTerms_of_constants {σ : Type} (source : DieSource σ) (explosions : Explosions)
    {ts : List Term} (h : ∀ t ∈ ts, t.isDice = false) (s : σ) :
    rollTerms source explosions ts s = (ts.map Term.rolledConstant, s) := by
  induction ts with
  | nil => rfl
  | cons t ts ih =>
    obtain ⟨ht, hts⟩ := List.forall_mem_cons.mp h
    cases hkind : t.kind with
    | dice count sides =>
      rw [Term.isDice, hkind] at ht
      cases ht
    | constant value =>
      have hvalue : t.constantValue? = some (t.sign.apply value) := by
        rw [Term.constantValue?, hkind]
      rw [rollTerms_cons, rollTerm_of_constant source explosions hkind, ih hts, List.map_cons,
        Term.rolledConstant, hvalue, Option.getD_some]

/-! ## The net of a combined formula -/

namespace Modifier

theorem isDice_of_mem_netTerms {modifiers : List Modifier} {t : Term}
    (h : t ∈ netTerms modifiers) : t.isDice = false := by
  rcases net_netTerms modifiers with ⟨-, hnone⟩ | ⟨-, t', value, hone, -, hvalue, -⟩
  · rw [hnone] at h
    cases h
  · rw [hone] at h
    obtain rfl := List.mem_singleton.mp h
    rw [Term.isDice_eq_isNone_constantValue?, hvalue]
    rfl

/-- What the net rolls. -/
def rolledNet (modifiers : List Modifier) : List RolledTerm :=
  (netTerms modifiers).map Term.rolledConstant

theorem origin_of_mem_rolledNet {modifiers : List Modifier} {t : RolledTerm}
    (h : t ∈ rolledNet modifiers) : t.term.origin = .netModifier := by
  obtain ⟨t, ht, rfl⟩ := List.mem_map.mp h
  exact origin_of_mem_netTerms ht

/-- The net has no dice. -/
theorem flatMap_dice_rolledNet (modifiers : List Modifier) :
    (rolledNet modifiers).flatMap RolledTerm.dice = [] := by
  rw [rolledNet, List.flatMap_map]
  exact List.flatMap_eq_nil_iff.mpr fun _ _ => rfl

theorem any_isDice_rolledNet (modifiers : List Modifier) :
    (rolledNet modifiers).any (·.term.isDice) = false := by
  rw [rolledNet, List.any_map, List.any_eq_false]
  intro t ht hdice
  rw [Function.comp_apply, Term.rolledConstant, isDice_of_mem_netTerms ht] at hdice
  cases hdice

/-- **The net counts for the total of the whole numbers**; the least amount counts for the one next
to it. -/
theorem exactSum_rolledNet (modifiers : List Modifier) :
    Amount.exactSum ((rolledNet modifiers).map RolledTerm.value) =
      max (-Amount.greatest) (Amount.total 0 (modifiers.filterMap integer?)).toInt := by
  rcases net_netTerms modifiers with ⟨hamounts, hnone⟩ | ⟨-, t, value, hone, -, hvalue, hint⟩
  · rw [rolledNet, hnone, hamounts]
    rfl
  · rw [rolledNet, hone, ← hint, List.map_singleton, List.map_singleton, Term.rolledConstant,
      hvalue, Amount.exactSum_cons, Amount.exactSum_nil, Int.add_zero]
    rfl

/-- A whole number behind the modifiers adds no term of its own. -/
theorem addedFrom_integer_appended (policy : BoundsPolicy) (modifiers : List Modifier)
    (name : String) (v : Amount) :
    addedFrom policy 0 (modifiers ++ [⟨name, .integer v⟩]) = addedFrom policy 0 modifiers := by
  rw [addedFrom_append, addedFrom_cons, addedTerms_of_integer rfl, addedFrom_nil,
    List.append_nil, List.append_nil]

end Modifier

namespace Formula

variable {σ : Type} (source : DieSource σ) (explosions : Explosions) (policy : BoundsPolicy)
  (base : Formula) (modifiers : List Modifier)

/-- What a combined formula rolls in front of the net: its own terms, then those of the dice
modifiers. -/
def rollFront (s : σ) : List RolledTerm × σ :=
  rollTerms source explosions (base.terms ++ Modifier.addedFrom policy 0 modifiers) s

/-- **The net is rolled last**, and draws nothing. -/
theorem roll_combineWith (s : σ) :
    (base.combineWith policy modifiers).roll source explosions s =
      ((base.rollFront source explosions policy modifiers s).1 ++ Modifier.rolledNet modifiers,
        (base.rollFront source explosions policy modifiers s).2) := by
  have hnet := rollTerms_of_constants source explosions
    (fun t (ht : t ∈ Modifier.netTerms modifiers) => Modifier.isDice_of_mem_netTerms ht)
    (base.rollFront source explosions policy modifiers s).2
  rw [roll, combineWith, rollTerms_append]
  dsimp only [rollFront] at hnet ⊢
  rw [hnet, Modifier.rolledNet]

theorem rollFront_integer_appended (name : String) (v : Amount) (s : σ) :
    base.rollFront source explosions policy (modifiers ++ [⟨name, .integer v⟩]) s =
      base.rollFront source explosions policy modifiers s := by
  rw [rollFront, Modifier.addedFrom_integer_appended, rollFront]

variable {base}

theorem origin_of_mem_rollFront (hbase : ∀ t ∈ base.terms, t.origin = .base) {s : σ}
    {t : RolledTerm} (h : t ∈ (base.rollFront source explosions policy modifiers s).1) :
    t.term.origin ≠ .netModifier := by
  have hmem : t.term ∈ base.terms ++ Modifier.addedFrom policy 0 modifiers := by
    rw [← map_term_rollTerms source explosions (base.terms ++ _) s]
    exact List.mem_map_of_mem h
  rcases List.mem_append.mp hmem with hmem | hmem
  · rw [hbase t.term hmem]
    exact nofun
  · obtain ⟨k, -, -, -, horigin⟩ := Modifier.origin_of_mem_addedFrom hmem
    rw [horigin]
    exact nofun

end Formula

/-- Apart from the net, what is rolled is what is in front of it. -/
theorem filter_append_rolledNet {front : List RolledTerm}
    (h : ∀ t ∈ front, t.term.origin ≠ .netModifier) (modifiers : List Modifier) :
    ((front ++ Modifier.rolledNet modifiers).filter fun t => t.term.origin ≠ .netModifier) =
      front := by
  have hfront : (front.filter fun t => t.term.origin ≠ .netModifier) = front :=
    List.filter_eq_self.mpr fun t ht => decide_eq_true (h t ht)
  have hnet : ((Modifier.rolledNet modifiers).filter
      fun t => t.term.origin ≠ .netModifier) = [] :=
    List.filter_eq_nil_iff.mpr fun t ht horigin =>
      of_decide_eq_true horigin (Modifier.origin_of_mem_rolledNet ht)
  rw [List.filter_append, hfront, hnet, List.append_nil]

/-- The total of a roll with a net behind it, when no sum stops on the way. -/
theorem toInt_sumTotal_append_rolledNet {front : List RolledTerm} {modifiers : List Modifier}
    (hamounts : Amount.StaysInRange (modifiers.filterMap Modifier.integer?))
    (hvalues : Amount.StaysInRange
      ((front ++ Modifier.rolledNet modifiers).map RolledTerm.value)) :
    (Evaluation.sumTotal (front ++ Modifier.rolledNet modifiers) 0).toInt =
      Amount.exactSum (front.map RolledTerm.value) +
        max (-Amount.greatest) (Amount.exactSum (modifiers.filterMap Modifier.integer?)) := by
  rw [Evaluation.sumTotal, hvalues.toInt_total, List.map_append, Amount.exactSum_append,
    Modifier.exactSum_rolledNet, hamounts.toInt_total]

/-! ## One more whole number -/

/-- **A whole number shifts the total by its value.** With one more whole number behind its
modifiers, a request that has an outcome has one again, the source is left in the same state, and
all that is rolled is the same but for the net. When no sum of the whole numbers and none of the
values stops on the way, the totals differ by what the two nets count for. That is the value of the
whole number, unless the whole numbers add up to the least amount, with it or without it: a net of
the least amount counts for one more than it is. -/
theorem resolve_integer_appended {σ : Type} {source : DieSource σ} {config : Config}
    (hmechanic : config.mechanic ≠ .dicePool) {request : Request} {s : σ} {o : Outcome}
    (h : (resolve source config request s).1 = .ok o) (name : String) (v : Amount) :
    let amounts := request.modifiers.filterMap Modifier.integer?
    let appended := request.modifiers ++ [⟨name, .integer v⟩]
    ∃ o', resolve source config { request with modifiers := appended } s =
        (.ok o', (resolve source config request s).2) ∧
      o'.rolledTerms.flatMap RolledTerm.dice = o.rolledTerms.flatMap RolledTerm.dice ∧
      (o'.rolledTerms.filter fun t => t.term.origin ≠ .netModifier) =
        (o.rolledTerms.filter fun t => t.term.origin ≠ .netModifier) ∧
      (Amount.StaysInRange (amounts ++ [v]) →
        Amount.StaysInRange (o.rolledTerms.map RolledTerm.value) →
        Amount.StaysInRange (o'.rolledTerms.map RolledTerm.value) →
        let before := Amount.exactSum amounts
        let after := Amount.exactSum amounts + v.toInt
        o'.total.toInt - o.total.toInt =
            max (-Amount.greatest) after - max (-Amount.greatest) before ∧
          (before ≠ Amount.least → after ≠ Amount.least →
            o'.total.toInt = o.total.toInt + v.toInt)) := by
  intro amounts appended
  obtain ⟨base, hp⟩ := exists_prepareBase_of_resolve_ok h
  have hbase := (Formula.wellFormed_of_readWith (read_of_prepareBase hp).2).base
  have hp' : prepareBase config { request with modifiers := appended } =
      .ok (config.overriddenBy request, base) := hp
  have hone := resolve_of_base source s hp
  have hother := resolve_of_base source s hp'
  dsimp only at hone hother
  -- the two rolls differ in their nets alone
  rw [Formula.roll_combineWith] at hone hother
  rw [Formula.rollFront_integer_appended] at hother
  generalize hfront : base.rollFront source (config.overriddenBy request).explosions
    (config.overriddenBy request).bounds request.modifiers s = front at hone hother
  rw [hone] at h
  obtain ⟨evaluation, he, rfl⟩ := exists_of_map_eq_ok h
  have hany : (front.1 ++ Modifier.rolledNet appended).any (·.term.isDice) =
      (front.1 ++ Modifier.rolledNet request.modifiers).any (·.term.isDice) := by
    rw [List.any_append, List.any_append, Modifier.any_isDice_rolledNet,
      Modifier.any_isDice_rolledNet]
  rw [Evaluation.of_eq_ofSum_of_ne_dicePool he hmechanic hany] at hother
  rw [hone]
  have hnumbers : appended.filterMap Modifier.integer? = amounts ++ [v] := by
    rw [List.filterMap_append]
    rfl
  refine ⟨_, hother, ?_, ?_, ?_⟩
  · simp only [Outcome.ofEvaluation, List.flatMap_append, Modifier.flatMap_dice_rolledNet]
  · have hne : ∀ t ∈ front.1, t.term.origin ≠ .netModifier := by
      rw [← hfront]
      exact fun t => Formula.origin_of_mem_rollFront source _ _ _ hbase
    exact (filter_append_rolledNet hne _).trans (filter_append_rolledNet hne _).symm
  · intro hstays hvalues hvalues'
    have hfirst : (Evaluation.sumTotal (front.1 ++ Modifier.rolledNet request.modifiers) 0).toInt =
        Amount.exactSum (front.1.map RolledTerm.value) +
          max (-Amount.greatest) (Amount.exactSum amounts) :=
      toInt_sumTotal_append_rolledNet (hstays.of_prefix (List.prefix_append amounts [v])) hvalues
    have hsecond := toInt_sumTotal_append_rolledNet (by rwa [hnumbers]) hvalues'
    have hbounds := hstays amounts (List.prefix_append amounts [v])
    have hbounds' := hstays (amounts ++ [v]) (List.prefix_refl _)
    rw [hnumbers, Amount.exactSum_append, Amount.exactSum_cons, Amount.exactSum_nil,
      Int.add_zero] at hsecond
    rw [Amount.exactSum_append, Amount.exactSum_cons, Amount.exactSum_nil,
      Int.add_zero] at hbounds'
    have ho := congrArg Int64.toInt (Evaluation.total_of_ne_dicePool he hmechanic)
    dsimp only [Outcome.ofEvaluation, Evaluation.ofSum]
    rw [ho, hfirst, hsecond]
    rw [Amount.least] at *
    rw [Amount.greatest] at *
    refine ⟨by omega, fun hbefore hafter => ?_⟩
    omega

/-- Near the greatest amount: a net of seventeen less than it, and twenty taken from that. -/
theorem resolve_integer_appended_near_greatest :
    let request : Request := ⟨some "1d20", [⟨"Str", .integer 9223372036854775790⟩], none, none⟩
    let appended : Request := { request with
      modifiers := request.modifiers ++ [⟨"Woe", .integer (-20)⟩] }
    let config : Config := {}
    config.mechanic ≠ .dicePool ∧
      ∃ o o', (resolve Script.source config request ⟨[14], 0⟩).1 = .ok o ∧
        (resolve Script.source config appended ⟨[14], 0⟩).1 = .ok o' ∧
        Amount.StaysInRange [9223372036854775790, -20] ∧
        Amount.StaysInRange (o.rolledTerms.map RolledTerm.value) ∧
        Amount.StaysInRange (o'.rolledTerms.map RolledTerm.value) ∧
        o.total = 9223372036854775804 ∧ o'.total.toInt = o.total.toInt - 20 := by
  intro request appended config
  have hmechanic : config.mechanic ≠ .dicePool := by decide
  have h : ∃ o, (resolve Script.source config request ⟨[14], 0⟩).1 = .ok o ∧
      o.rolledTerms = [⟨.dice .plus 1 20, .dice [⟨[14], false⟩]⟩,
        ⟨⟨.plus, .constant 9223372036854775790, .netModifier⟩, .constant 9223372036854775790⟩] ∧
      o.total = 9223372036854775804 :=
    ⟨⟨"1d20+9223372036854775790", 9223372036854775804, none, _,
      "1d20 [14] +9223372036854775790 Str = 9223372036854775804", 0, 0, []⟩, by decide, rfl, rfl⟩
  obtain ⟨o, ho, hrolled, htotal⟩ := h
  have hamounts : Amount.StaysInRange [9223372036854775790, -20] := by decide
  have hvalues : Amount.StaysInRange (o.rolledTerms.map RolledTerm.value) := by
    rw [hrolled]
    decide
  obtain ⟨o', hresolve, -, -, hshift⟩ := resolve_integer_appended hmechanic ho "Woe" (-20)
  have hother : (resolve Script.source config appended ⟨[14], 0⟩).1 = .ok o' :=
    congrArg Prod.fst hresolve
  have hvalues' : Amount.StaysInRange (o'.rolledTerms.map RolledTerm.value) := by
    have hmap : (resolve Script.source config appended ⟨[14], 0⟩).1.map
        (fun o => o.rolledTerms.map RolledTerm.value) = .ok [14, 9223372036854775770] := by decide
    rw [hother] at hmap
    have hlist : o'.rolledTerms.map RolledTerm.value = [14, 9223372036854775770] :=
      Except.ok.inj hmap
    rw [hlist]
    decide
  exact ⟨hmechanic, o, o', ho, hother, hamounts, hvalues, hvalues', htotal,
    (hshift hamounts hvalues hvalues').2 (by decide) (by decide)⟩

/-- The least amount as the only whole number: nothing stops on the way, and the total is one more
than the amount shifts it. -/
theorem total_not_shifted_by_least :
    let resolved modifiers := (resolve Script.source {} ⟨some "1d6", modifiers, none, none⟩
      ⟨[3], 0⟩).1
    Script.source.Fair ∧ ∃ o o',
      resolved [] = .ok o ∧ resolved [⟨"Doom", .integer Int64.minValue⟩] = .ok o' ∧
        Amount.StaysInRange [Int64.minValue] ∧
        Amount.StaysInRange (o.rolledTerms.map RolledTerm.value) ∧
        Amount.StaysInRange (o'.rolledTerms.map RolledTerm.value) ∧
        o'.total.toInt ≠ o.total.toInt + Int64.minValue.toInt := by
  refine ⟨Script.source_fair,
    ⟨"1d6", 3, none, [⟨.dice .plus 1 6, .dice [⟨[3], false⟩]⟩], "1d6 [3] = 3", 0, 0, []⟩,
    ⟨"1d6-9223372036854775807", -9223372036854775804, none,
      [⟨.dice .plus 1 6, .dice [⟨[3], false⟩]⟩,
        ⟨⟨.minus, .constant 9223372036854775807, .netModifier⟩, .constant (-9223372036854775807)⟩],
      "1d6 [3] -9223372036854775808 Doom = -9223372036854775804", 0, 0, []⟩,
    by decide, by decide, by decide, by decide, by decide, by decide⟩

end Tabletop
