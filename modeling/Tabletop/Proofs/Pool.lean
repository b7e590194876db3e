import Tabletop.Proofs.Dice.Value
import Tabletop.Proofs.Modifier.Net
import Tabletop.Proofs.Modifier.Rearranged

/-!
# Counting a pool

A pool counts the faces of its dice that meet the target. What it says depends on the added dice of
a roll alone: not on their order, not on constants and subtracted dice between them, not on an
extra amount, and so not on the whole numbers of a request either.

* `Criteria.Meets` — the comparison of a criteria, in whole numbers.
* `countPooled`, `Config.hits` — counting faces term by term and die by die.
* `Evaluation.successes_eq_hits` — the successes of a pool are its hits.
* `Evaluation.of_eq_of_perm` — rolls with the same added dice, in any order, are judged the same.
* `Formula.rollFront_filter_isDice` — what is rolled without the whole numbers.
* `pool_counts_hits` — the judgement of a pool, and a request without its whole numbers.
-/

namespace Tabletop

/-! ## What is counted -/

/-- The comparison that a criteria makes between whole numbers. -/
def Criteria.Meets (c : Criteria) (value target : Int) : Prop :=
  match c with
  | greaterEqual => value ≥ target
  | lessEqual => value ≤ target
  | equal => value = target

instance Criteria.decidableMeets (c : Criteria) (value target : Int) :
    Decidable (c.Meets value target) :=
  match c with
  | greaterEqual => inferInstanceAs (Decidable (value ≥ target))
  | lessEqual => inferInstanceAs (Decidable (value ≤ target))
  | equal => inferInstanceAs (Decidable (value = target))

/-- A term of dice that are added. -/
def RolledTerm.IsPooled (t : RolledTerm) : Prop :=
  t.term.isDice = true ∧ t.term.sign = .plus

instance RolledTerm.decidableIsPooled : DecidablePred RolledTerm.IsPooled :=
  fun t => inferInstanceAs (Decidable (t.term.isDice = true ∧ t.term.sign = .plus))

/-- How many faces of added dice have a property: term by term, die by die, explosions included. -/
def countPooled (p : UInt32 → Bool) (rolled : List RolledTerm) : Nat :=
  (rolled.map fun t =>
    if t.IsPooled then (t.dice.map fun die => die.rolls.countP p).sum else 0).sum

/-- How many faces of added dice meet the target of a configuration, which is eight when it has
none. -/
def Config.hits (config : Config) (rolled : List RolledTerm) : Nat :=
  countPooled (fun face => config.criteria.Meets face.toNat (config.target.getD 8).toInt) rolled

theorem Criteria.check_iff {c : Criteria} {value target : Amount} :
    c.check value target = true ↔ c.Meets value.toInt target.toInt := by
  cases c with
  | greaterEqual => exact decide_eq_true_iff.trans Int64.le_iff_toInt_le
  | lessEqual => exact decide_eq_true_iff.trans Int64.le_iff_toInt_le
  | equal => exact beq_iff_eq.trans Int64.toInt_inj.symm

/-- A face meets a target from above, from below, or, when it is the target, both ways. -/
theorem countP_meets (target : Int) (faces : List UInt32) :
    let counted c := faces.countP fun face => Criteria.Meets c face.toNat target
    counted .greaterEqual + counted .lessEqual = counted .equal + faces.length := by
  intro counted
  induction faces with
  | nil => rfl
  | cons face faces ih =>
    have hge : Criteria.Meets .greaterEqual face.toNat target ↔ target ≤ face.toNat := Iff.rfl
    have hle : Criteria.Meets .lessEqual face.toNat target ↔ face.toNat ≤ target := Iff.rfl
    have heq : Criteria.Meets .equal face.toNat target ↔ face.toNat = target := Iff.rfl
    dsimp only [counted] at ih ⊢
    simp only [List.countP_cons, decide_eq_true_eq, hge, hle, heq, List.length_cons]
    split_ifs <;> omega

/-! ## The judgement -/

namespace Evaluation

theorem inPool_iff {t : RolledTerm} : inPool t = true ↔ t.IsPooled := by
  rw [inPool, Bool.and_eq_true, beq_iff_eq]
  rfl

theorem filter_inPool (rolled : List RolledTerm) :
    rolled.filter inPool = rolled.filter fun t => t.IsPooled :=
  List.filter_congr fun _ _ => Bool.eq_iff_iff.mpr (inPool_iff.trans decide_eq_true_iff.symm)

/-- Counting term by term and die by die is counting all faces at once. -/
theorem countP_poolFaces (p : UInt32 → Bool) (rolled : List RolledTerm) :
    (poolFaces rolled).countP p = countPooled p rolled := by
  rw [poolFaces, filter_inPool]
  induction rolled with
  | nil => rfl
  | cons t rest ih =>
    rw [countPooled, List.map_cons, List.sum_cons, ← countPooled, ← ih]
    by_cases ht : t.IsPooled
    · rw [List.filter_cons, if_pos (decide_eq_true ht), List.flatMap_cons, List.countP_append,
        RolledTerm.faces, List.countP_flatMap, if_pos ht]
      rfl
    · rw [List.filter_cons, if_neg (mt of_decide_eq_true ht), if_neg ht, Nat.zero_add]

/-- **The successes of a pool are its hits.** -/
theorem successes_eq_hits (config : Config) (rolled : List RolledTerm) :
    successes config rolled = config.hits rolled := by
  rw [successes, countP_poolFaces, Config.hits]
  congr 1
  funext face
  rw [Bool.eq_iff_iff, Criteria.check_iff, Amount.toInt_ofWord, decide_eq_true_iff]
  rfl

section Pool

variable {config : Config} (hpool : config.mechanic = .dicePool) {rolled other : List RolledTerm}
  {extra extra' : Amount}

include hpool

theorem of_of_isPooled (h : ∃ t ∈ rolled, t.IsPooled) :
    Evaluation.of config rolled extra = .ok (ofPool config rolled) := by
  obtain ⟨t, ht, hpooled⟩ := h
  rw [Evaluation.of, hpool]
  exact if_pos (List.any_eq_true.mpr ⟨t, ht, inPool_iff.mpr hpooled⟩)

theorem of_of_not_isPooled (h : ¬ ∃ t ∈ rolled, t.IsPooled) :
    Evaluation.of config rolled extra = .error (.noDice .dicePool) := by
  rw [Evaluation.of, hpool]
  refine if_neg fun hany => h ?_
  obtain ⟨t, ht, hpooled⟩ := List.any_eq_true.mp hany
  exact ⟨t, ht, inPool_iff.mp hpooled⟩

/-- A pool that is judged has added dice, and its judgement is the count. -/
theorem of_eq_ok_iff {evaluation : Evaluation} :
    Evaluation.of config rolled extra = .ok evaluation ↔
      (∃ t ∈ rolled, t.IsPooled) ∧ ofPool config rolled = evaluation := by
  by_cases h : ∃ t ∈ rolled, t.IsPooled
  · rw [of_of_isPooled hpool h, Except.ok.injEq]
    exact (and_iff_right h).symm
  · rw [of_of_not_isPooled hpool h]
    exact iff_of_false nofun fun hok => h hok.1

/-- **Rolls with the same added dice are judged the same**, in whatever order these are, whatever is
rolled between them, and with any extra amount. -/
theorem of_eq_of_perm
    (h : (other.filter fun t => t.IsPooled).Perm (rolled.filter fun t => t.IsPooled)) :
    Evaluation.of config other extra' = Evaluation.of config rolled extra := by
  have hmem : (∃ t ∈ other, t.IsPooled) ↔ ∃ t ∈ rolled, t.IsPooled := by
    have hiff := exists_congr fun t => h.mem_iff (a := t)
    simpa only [List.mem_filter, decide_eq_true_eq] using hiff
  have hcount : successes config other = successes config rolled := by
    rw [successes, successes, poolFaces, poolFaces, filter_inPool, filter_inPool]
    exact (h.flatMap_right RolledTerm.faces).countP_eq _
  by_cases hrolled : ∃ t ∈ rolled, t.IsPooled
  · rw [of_of_isPooled hpool hrolled, of_of_isPooled hpool (hmem.mpr hrolled), ofPool, ofPool,
      hcount]
  · rw [of_of_not_isPooled hpool hrolled, of_of_not_isPooled hpool (mt hmem.mp hrolled)]

end Pool

end Evaluation

theorem countPooled_append (p : UInt32 → Bool) (xs ys : List RolledTerm) :
    countPooled p (xs ++ ys) = countPooled p xs + countPooled p ys := by
  rw [countPooled, List.map_append, List.sum_append, countPooled, countPooled]

/-- What meets the target from above and from below is everything, the target itself twice. -/
theorem hits_greaterEqual_add_hits_lessEqual (config : Config) (target : Option Amount)
    (rolled : List RolledTerm) :
    let counted criteria :=
      ({ config with criteria := criteria, target := target } : Config).hits rolled
    counted .greaterEqual + counted .lessEqual =
      counted .equal + countPooled (fun _ => true) rolled := by
  have h := countP_meets (target.getD 8).toInt (Evaluation.poolFaces rolled)
  dsimp only [Config.hits] at h ⊢
  rw [← Evaluation.countP_poolFaces, ← Evaluation.countP_poolFaces, ← Evaluation.countP_poolFaces,
    ← Evaluation.countP_poolFaces, List.countP_true]
  exact h

/-! ## Without the whole numbers -/

/-- One origin for all terms, for where they come from to make no difference. -/
def Origin.forget (_ : Origin) : Origin :=
  .modifier 0

namespace Modifier

theorem map_forget_addedFrom (policy : BoundsPolicy) (first : Nat) (modifiers : List Modifier) :
    (addedFrom policy first modifiers).map (Term.mapOrigin .forget) =
      modifiers.flatMap fun m => m.addedTerms policy 0 := by
  induction modifiers generalizing first with
  | nil => rfl
  | cons m rest ih =>
    rw [addedFrom_cons, List.map_append, ih, map_mapOrigin_addedTerms policy rfl,
      List.flatMap_cons]

theorem flatMap_addedTerms_filter_isDice (policy : BoundsPolicy) (modifiers : List Modifier) :
    ((modifiers.filter isDice).flatMap fun m => m.addedTerms policy 0) =
      modifiers.flatMap fun m => m.addedTerms policy 0 := by
  induction modifiers with
  | nil => rfl
  | cons m rest ih =>
    cases hvalue : m.value with
    | integer amount =>
      have hm : ¬ m.isDice = true := fun hm => by
        obtain ⟨expression, hdice⟩ := isDice_iff.mp hm
        rw [hvalue] at hdice
        cases hdice
      rw [List.filter_cons_of_neg hm, ih, List.flatMap_cons, addedTerms_of_integer hvalue,
        List.nil_append]
    | dice expression =>
      rw [List.filter_cons_of_pos (isDice_iff.mpr ⟨expression, hvalue⟩), List.flatMap_cons, ih,
        List.flatMap_cons]

/-- Without whole numbers there is no net. -/
theorem rolledNet_filter_isDice (modifiers : List Modifier) :
    rolledNet (modifiers.filter isDice) = [] := by
  have hnone : (modifiers.filter isDice).filterMap integer? = [] :=
    List.filterMap_eq_nil_iff.mpr fun m hm => Option.isNone_iff_eq_none.mp (List.mem_filter.mp hm).2
  rw [rolledNet, netTerms_eq_nil_iff.mpr hnone, List.map_nil]

theorem not_isPooled_of_mem_rolledNet {modifiers : List Modifier} {t : RolledTerm}
    (h : t ∈ rolledNet modifiers) : ¬ t.IsPooled := by
  intro hpooled
  have hany : (rolledNet modifiers).any (·.term.isDice) = true :=
    List.any_eq_true.mpr ⟨t, h, hpooled.1⟩
  rw [any_isDice_rolledNet] at hany
  cases hany

end Modifier

/-- **Without the whole numbers the same is rolled in front of the net**, but for the origins, and
the source is left in the same state. -/
theorem Formula.rollFront_filter_isDice {σ : Type} (source : DieSource σ) (explosions : Explosions)
    (policy : BoundsPolicy) (base : Formula) (modifiers : List Modifier) (s : σ) :
    let one := base.rollFront source explosions policy modifiers s
    let other := base.rollFront source explosions policy (modifiers.filter Modifier.isDice) s
    other.1.map (RolledTerm.mapOrigin .forget) = one.1.map (RolledTerm.mapOrigin .forget) ∧
      other.2 = one.2 := by
  intro one other
  have hterms : (base.terms ++ Modifier.addedFrom policy 0 (modifiers.filter Modifier.isDice)).map
        (Term.mapOrigin .forget) =
      (base.terms ++ Modifier.addedFrom policy 0 modifiers).map (Term.mapOrigin .forget) := by
    rw [List.map_append, Modifier.map_forget_addedFrom, Modifier.flatMap_addedTerms_filter_isDice,
      ← Modifier.map_forget_addedFrom policy 0, ← List.map_append]
  have hone := rollTerms_mapOrigin source explosions .forget
    (base.terms ++ Modifier.addedFrom policy 0 modifiers) s
  rw [← hterms, rollTerms_mapOrigin] at hone
  exact Prod.mk.inj hone

/-- A pool is judged by what is rolled in front of the net. -/
theorem Evaluation.of_append_rolledNet {config : Config} (hpool : config.mechanic = .dicePool)
    (front : List RolledTerm) (modifiers : List Modifier) (extra : Amount) :
    Evaluation.of config (front ++ Modifier.rolledNet modifiers) extra =
      Evaluation.of config front extra := by
  have hnet : ((Modifier.rolledNet modifiers).filter fun t => t.IsPooled) = [] :=
    List.filter_eq_nil_iff.mpr fun t ht hpooled =>
      Modifier.not_isPooled_of_mem_rolledNet ht (of_decide_eq_true hpooled)
  refine of_eq_of_perm hpool ?_
  rw [List.filter_append, hnet, List.append_nil]

/-- How the outcomes `one` and `other` of a request and of the same request without its whole
numbers compare. -/
structure Outcome.SamePool (one other : Outcome) : Prop where
  total : other.total = one.total
  success : other.success = one.success
  /-- every die shows the same faces -/
  dice : other.rolledTerms.flatMap RolledTerm.dice = one.rolledTerms.flatMap RolledTerm.dice
  /-- but for the net, the rolled terms are the same, whatever they say of their origins -/
  rolledTerms : other.rolledTerms.map (RolledTerm.mapOrigin .forget) =
    (one.rolledTerms.filter fun t => t.term.origin ≠ .netModifier).map
      (RolledTerm.mapOrigin .forget)

/-- A request for a pool without its whole numbers ends in the same error, or in an outcome of the
same pool. -/
theorem resolve_filter_isDice {σ : Type} (source : DieSource σ) {config : Config}
    (hpool : config.mechanic = .dicePool) (request : Request) (s : σ) :
    let one := resolve source config request s
    let other := resolve source config
      { request with modifiers := request.modifiers.filter Modifier.isDice } s
    other.2 = one.2 ∧
      ((∃ e, one.1 = .error e ∧ other.1 = .error e) ∨
        ∃ o o', one.1 = .ok o ∧ other.1 = .ok o' ∧ o.SamePool o') := by
  intro one other
  cases hp : prepareBase config request with
  | error e =>
    have hone : one = (.error e, s) := resolve_of_base_error source s hp
    have hother : other = (.error e, s) := resolve_of_base_error source s hp
    rw [hone, hother]
    exact ⟨rfl, .inl ⟨e, rfl, rfl⟩⟩
  | ok prepared =>
    obtain ⟨C, base⟩ := prepared
    obtain ⟨hC, hread⟩ := read_of_prepareBase hp
    have hpool' : C.mechanic = .dicePool := by
      rw [hC]
      exact hpool
    have hp' : prepareBase config
        { request with modifiers := request.modifiers.filter Modifier.isDice } = .ok (C, base) :=
      (prepareBase_modifiers config request _).trans hp
    have hone : one = _ := resolve_of_base source s hp
    have hother : other = _ := resolve_of_base source s hp'
    obtain ⟨hfronts, hstate⟩ := Formula.rollFront_filter_isDice source C.explosions C.bounds base
      request.modifiers s
    have horigin := fun t => Formula.origin_of_mem_rollFront source C.explosions C.bounds
      request.modifiers (Formula.wellFormed_of_readWith hread).base (s := s) (t := t)
    dsimp only at hone hother
    rw [Formula.roll_combineWith] at hone hother
    generalize base.rollFront source _ _ request.modifiers s = front at *
    generalize base.rollFront source _ _ (request.modifiers.filter Modifier.isDice) s = front' at *
    -- both are judged by the same terms once these forget their origins
    have hjudged : Evaluation.of C front'.1 0 =
        Evaluation.of C (front.1 ++ Modifier.rolledNet request.modifiers) 0 := by
      rw [Evaluation.of_append_rolledNet hpool', ← Evaluation.of_mapOrigin .forget, hfronts,
        Evaluation.of_mapOrigin]
    rw [Modifier.rolledNet_filter_isDice, List.append_nil, hjudged] at hother
    rw [hone, hother]
    refine ⟨hstate, ?_⟩
    cases Evaluation.of C (front.1 ++ Modifier.rolledNet request.modifiers) 0 with
    | error e => exact .inl ⟨e, rfl, rfl⟩
    | ok evaluation =>
      refine .inr ⟨_, _, rfl, rfl, rfl, rfl, ?_, ?_⟩
      · dsimp only [Outcome.ofEvaluation]
        rw [List.flatMap_append, Modifier.flatMap_dice_rolledNet, List.append_nil,
          ← flatMap_dice_mapOrigin .forget, hfronts, flatMap_dice_mapOrigin]
      · exact hfronts.trans (congrArg _ (filter_append_rolledNet horigin _).symm)

/-! ## Pools and requests for a pool -/

/-- **A pool counts the faces of added dice that meet its target.** Rolled terms are judged exactly
when some of them are added dice. The total is the number of their faces that meet the target, each
explosion by itself, and the verdict compares it with the difficulty, whatever the criteria. Terms
in another order, with constants and subtracted dice put in or taken out anywhere, and with any
extra amount, are judged the same; the totals of two rolls add up when the rolls are joined; and the
faces that meet a target from above and from below are all faces, those that are the target twice. A
request for a pool, without its whole numbers, leaves the source in the same state and ends in the
same error, or with the same total, verdict and faces. -/
theorem pool_counts_hits {σ : Type} (source : DieSource σ) {config : Config}
    (hpool : config.mechanic = .dicePool) :
    (∀ rolled extra,
      ((∃ evaluation, Evaluation.of config rolled extra = .ok evaluation) ↔
        ∃ t ∈ rolled, t.IsPooled) ∧
      (∀ evaluation, Evaluation.of config rolled extra = .ok evaluation →
        evaluation.total = .ofNat (config.hits rolled) ∧
        (config.hits rolled < 2 ^ 63 → evaluation.total.toInt = config.hits rolled) ∧
        evaluation.success = config.difficulty.map fun d => decide (evaluation.total ≥ d)) ∧
      ∀ other extra',
        (other.filter fun t => t.IsPooled).Perm (rolled.filter fun t => t.IsPooled) →
        Evaluation.of config other extra' = Evaluation.of config rolled extra) ∧
    (∀ xs ys extra one other, Evaluation.of config xs extra = .ok one →
      Evaluation.of config ys extra = .ok other →
      config.hits (xs ++ ys) = config.hits xs + config.hits ys ∧
        ∃ both, Evaluation.of config (xs ++ ys) extra = .ok both ∧
          both.total = one.total + other.total) ∧
    (∀ target rolled,
      let counted criteria :=
        ({ config with criteria := criteria, target := target } : Config).hits rolled
      counted .greaterEqual + counted .lessEqual - counted .equal =
        countPooled (fun _ => true) rolled) ∧
    ∀ request s,
      let one := resolve source config request s
      let other := resolve source config
        { request with modifiers := request.modifiers.filter Modifier.isDice } s
      other.2 = one.2 ∧
        ((∃ e, one.1 = .error e ∧ other.1 = .error e) ∨
          ∃ o o', one.1 = .ok o ∧ other.1 = .ok o' ∧ o.SamePool o') := by
  have hok : ∀ {rolled extra evaluation}, Evaluation.of config rolled extra = .ok evaluation ↔
      (∃ t ∈ rolled, t.IsPooled) ∧ Evaluation.ofPool config rolled = evaluation :=
    Evaluation.of_eq_ok_iff hpool
  have htotal : ∀ rolled, (Evaluation.ofPool config rolled).total = .ofNat (config.hits rolled) :=
    fun rolled => congrArg Int64.ofNat (Evaluation.successes_eq_hits config rolled)
  refine ⟨fun rolled extra => ⟨?_, ?_, ?_⟩, ?_, ?_, resolve_filter_isDice source hpool⟩
  · exact ⟨fun ⟨_, h⟩ => (hok.mp h).1, fun h => ⟨_, hok.mpr ⟨h, rfl⟩⟩⟩
  · intro evaluation h
    obtain ⟨-, rfl⟩ := hok.mp h
    refine ⟨htotal rolled, fun hlt => ?_, rfl⟩
    rw [htotal, Int64.toInt_ofNat_of_lt hlt]
  · exact fun other extra' h => Evaluation.of_eq_of_perm hpool h
  · intro xs ys extra one other hone hother
    obtain ⟨⟨t, ht, hpooled⟩, rfl⟩ := hok.mp hone
    obtain ⟨-, rfl⟩ := hok.mp hother
    have happend : config.hits (xs ++ ys) = config.hits xs + config.hits ys :=
      countPooled_append _ xs ys
    refine ⟨happend, _, hok.mpr ⟨⟨t, List.mem_append_left ys ht, hpooled⟩, rfl⟩, ?_⟩
    rw [htotal, htotal, htotal, happend, Int64.ofNat_add]
  · intro target rolled counted
    have hsum : counted .greaterEqual + counted .lessEqual =
        counted .equal + countPooled (fun _ => true) rolled :=
      hits_greaterEqual_add_hits_lessEqual config target rolled
    omega

/-- Two of four added faces meet the target, in either order and with other terms between them, and
four of them in both rolls together. A request with a pool of its own keeps its three hits without
its whole numbers. -/
theorem pool_counts_hits_exploding :
    let config : Config :=
      { mechanic := .dicePool, target := some 5, difficulty := some 3, exploding := true }
    let rolled : List RolledTerm :=
      [⟨.dice .plus 2 6, .dice [⟨[6, 5], false⟩, ⟨[1], false⟩]⟩,
        ⟨.dice .plus 1 4, .dice [⟨[2], false⟩]⟩]
    let other : List RolledTerm :=
      [⟨.dice .minus 1 8, .dice [⟨[7], false⟩]⟩, ⟨.dice .plus 1 4, .dice [⟨[2], false⟩]⟩,
        ⟨⟨.plus, .constant 9, .base⟩, .constant 9⟩,
        ⟨.dice .plus 2 6, .dice [⟨[6, 5], false⟩, ⟨[1], false⟩]⟩]
    let request : Request :=
      ⟨some "3d6-1d4+2", [⟨"Edge", .integer 4⟩, ⟨"Aim", .dice "1d4"⟩, ⟨"Wound", .integer (-1)⟩],
        none, none⟩
    let script : Script := ⟨[6, 5, 1, 5, 3, 2], 0⟩
    config.mechanic = .dicePool ∧
      (∃ evaluation, Evaluation.of config rolled 0 = .ok evaluation ∧
        evaluation.total.toInt = 2 ∧ evaluation.success = some false ∧
        Evaluation.of config other 7 = .ok evaluation) ∧
      (∃ both, Evaluation.of config (rolled ++ other) 0 = .ok both ∧ both.total = 4) ∧
      request.modifiers.filter Modifier.isDice = [⟨"Aim", .dice "1d4"⟩] ∧
      ∃ o o', (resolve Script.source config request script).1 = .ok o ∧
        (resolve Script.source config { request with modifiers := [⟨"Aim", .dice "1d4"⟩] }
          script).1 = .ok o' ∧
        o.total = 3 ∧ o.success = some true ∧ o.SamePool o' := by
  intro config rolled other request script
  have hpool : config.mechanic = .dicePool := rfl
  obtain ⟨hjudged, hjoined, -, hrequests⟩ := pool_counts_hits Script.source hpool
  obtain ⟨hiff, hcount, horder⟩ := hjudged rolled 0
  obtain ⟨evaluation, he⟩ := hiff.mpr (by decide)
  obtain ⟨-, htotal, hsuccess⟩ := hcount evaluation he
  have hother : Evaluation.of config other 7 = .ok evaluation :=
    (horder other 7 (by decide)).trans he
  have hother' : Evaluation.of config other 0 = .ok evaluation :=
    (horder other 0 (by decide)).trans he
  have htwo : evaluation.total = 2 := Int64.toInt_inj.mp ((htotal (by decide)).trans (by decide))
  obtain ⟨-, both, hboth, hsum⟩ := hjoined rolled other 0 evaluation evaluation he hother'
  have hresolve : (resolve Script.source config request script).1.map
      (fun o => (o.total, o.success)) = .ok (3, some true) := by decide
  refine ⟨hpool, ⟨evaluation, he, congrArg Int64.toInt htwo, ?_, hother⟩, ⟨both, hboth, ?_⟩,
    by decide, ?_⟩
  · rw [hsuccess, htwo]
    decide
  · rw [hsum, htwo]
    decide
  · rcases (hrequests request script).2 with ⟨e, herror, -⟩ | ⟨o, o', ho, ho', hsame⟩
    · rw [herror] at hresolve
      cases hresolve
    · rw [ho] at hresolve
      obtain ⟨hthree, hverdict⟩ := Prod.mk.inj (Except.ok.inj hresolve)
      exact ⟨o, o', ho, ho', hthree, hverdict, hsame⟩

end Tabletop
