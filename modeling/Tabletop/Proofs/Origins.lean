import Mathlib.Tactic.ByContra
import Tabletop.Outcome
import Tabletop.Proofs.Dice.Stream

/-!
# What does not look at origins

A term remembers where it came from. Text, dice and judgement of a formula are the same whatever its
terms remember; what is told about base dice and base constants only asks which terms are base
terms.

* `Term.mapOrigin`, `Formula.mapOrigin`, `RolledTerm.mapOrigin` — the same with other origins.
* `Formula.text_mapOrigin`, `Formula.roll_mapOrigin`, `Evaluation.of_mapOrigin` — nothing changes.
* `baseTerms` — the base terms of a roll: the base dice, their groups and the base constants depend
  on these alone (`criticalCount_baseTerms`, `breakdownParts_baseTerms`).
* `Origin.KeepsBase` — the changes of origins that leave base terms alone: those keep the base dice,
  their groups and the base constants (`criticalCount_mapOrigin`, `describe_mapOrigin`).
-/

namespace Tabletop

/-- The term with its origin changed. -/
def Term.mapOrigin (g : Origin → Origin) (t : Term) : Term :=
  t.withOrigin (g t.origin)

/-- The formula with the origins of its terms changed. -/
def Formula.mapOrigin (g : Origin → Origin) (f : Formula) : Formula :=
  ⟨f.terms.map (Term.mapOrigin g)⟩

/-- The rolled term with the origin of its term changed. -/
def RolledTerm.mapOrigin (g : Origin → Origin) (t : RolledTerm) : RolledTerm :=
  { t with term := t.term.mapOrigin g }

/-- A change of origins that makes no base term another, nor another term a base term. -/
def Origin.KeepsBase (g : Origin → Origin) : Prop :=
  ∀ o, g o = .base ↔ o = .base

section Fields

variable (g : Origin → Origin) (t : Term) (r : RolledTerm)

@[simp] theorem Term.mapOrigin_sign : (t.mapOrigin g).sign = t.sign := rfl

@[simp] theorem Term.mapOrigin_kind : (t.mapOrigin g).kind = t.kind := rfl

@[simp] theorem Term.mapOrigin_origin : (t.mapOrigin g).origin = g t.origin := rfl

@[simp] theorem RolledTerm.mapOrigin_term : (r.mapOrigin g).term = r.term.mapOrigin g := rfl

@[simp] theorem RolledTerm.mapOrigin_result : (r.mapOrigin g).result = r.result := rfl

@[simp] theorem RolledTerm.mapOrigin_dice : (r.mapOrigin g).dice = r.dice := rfl

end Fields

theorem Term.mapOrigin_of_eq {g : Origin → Origin} {t : Term} (h : g t.origin = t.origin) :
    t.mapOrigin g = t := by
  rw [mapOrigin, withOrigin, h]

/-! ## Text and dice -/

/-- The text of a formula does not show where its terms came from. -/
theorem Formula.text_mapOrigin (g : Origin → Origin) (f : Formula) :
    (f.mapOrigin g).text = f.text := by
  have htail : ∀ terms : List Term,
      tailChars (terms.map (Term.mapOrigin g)) = tailChars terms :=
    fun terms => List.flatMap_map ..
  obtain ⟨terms⟩ := f
  cases terms with
  | nil => rfl
  | cons t rest =>
    exact congrArg (fun tail => String.ofList
      ((if t.sign = .minus then [t.sign.symbol] else []) ++ t.kind.chars ++ tail)) (htail rest)

section Rolling

variable {σ : Type} (source : DieSource σ) (explosions : Explosions) (g : Origin → Origin)

theorem rollTerm_mapOrigin (t : Term) (s : σ) :
    rollTerm source explosions (t.mapOrigin g) s =
      ((rollTerm source explosions t s).1.mapOrigin g, (rollTerm source explosions t s).2) := by
  cases h : t.kind with
  | constant value =>
    have h' : (t.mapOrigin g).kind = .constant value := h
    rw [rollTerm_of_constant source explosions h, rollTerm_of_constant source explosions h']
    rfl
  | dice count sides =>
    have h' : (t.mapOrigin g).kind = .dice count sides := h
    rw [rollTerm_of_dice source explosions h, rollTerm_of_dice source explosions h']
    rfl

theorem rollTerms_mapOrigin (ts : List Term) (s : σ) :
    rollTerms source explosions (ts.map (Term.mapOrigin g)) s =
      ((rollTerms source explosions ts s).1.map (RolledTerm.mapOrigin g),
        (rollTerms source explosions ts s).2) := by
  induction ts generalizing s with
  | nil => rfl
  | cons t ts ih =>
    rw [List.map_cons, rollTerms_cons, rollTerms_cons, rollTerm_mapOrigin, ih, List.map_cons]

/-- **Dice do not depend on origins**: the same faces are drawn, in the same order. -/
theorem Formula.roll_mapOrigin (f : Formula) (s : σ) :
    (f.mapOrigin g).roll source explosions s =
      ((f.roll source explosions s).1.map (RolledTerm.mapOrigin g),
        (f.roll source explosions s).2) :=
  rollTerms_mapOrigin source explosions g f.terms s

end Rolling

theorem flatMap_dice_mapOrigin (g : Origin → Origin) (rolled : List RolledTerm) :
    (rolled.map (RolledTerm.mapOrigin g)).flatMap RolledTerm.dice =
      rolled.flatMap RolledTerm.dice :=
  List.flatMap_map ..

/-! ## Judgement -/

/-- The judgement of a roll does not depend on origins. -/
theorem Evaluation.of_mapOrigin (g : Origin → Origin) (config : Config) (rolled : List RolledTerm)
    (extra : Amount) :
    Evaluation.of config (rolled.map (RolledTerm.mapOrigin g)) extra =
      Evaluation.of config rolled extra := by
  have hvalues : (rolled.map (RolledTerm.mapOrigin g)).map RolledTerm.value =
      rolled.map RolledTerm.value := List.map_map
  have hpool : (rolled.map (RolledTerm.mapOrigin g)).any inPool = rolled.any inPool :=
    List.any_map
  have hdice : (rolled.map (RolledTerm.mapOrigin g)).any (·.term.isDice) =
      rolled.any (·.term.isDice) := List.any_map
  have hfaces : poolFaces (rolled.map (RolledTerm.mapOrigin g)) = poolFaces rolled := by
    rw [poolFaces, List.filter_map, List.flatMap_map]
    rfl
  have hsum : ofSum config (rolled.map (RolledTerm.mapOrigin g)) extra =
      ofSum config rolled extra := by
    rw [ofSum, sumTotal, hvalues, ofSum, sumTotal]
  have hcount : ofPool config (rolled.map (RolledTerm.mapOrigin g)) = ofPool config rolled := by
    rw [ofPool, successes, hfaces, ofPool, successes]
  rw [Evaluation.of, Evaluation.of, hsum, hcount, hpool, hdice]

theorem capWarnings_mapOrigin (g : Origin → Origin) (cap : UInt32) (rolled : List RolledTerm) :
    capWarnings cap (rolled.map (RolledTerm.mapOrigin g)) = capWarnings cap rolled := by
  rw [capWarnings, capWarnings, cappedSizes, cappedSizes, List.filter_map, List.filterMap_map]
  rfl

/-! ## Base terms -/

section Base

variable {g : Origin → Origin} (h : Origin.KeepsBase g) (rolled : List RolledTerm)

include h

theorem baseDice_mapOrigin : baseDice (rolled.map (RolledTerm.mapOrigin g)) = baseDice rolled := by
  have hbase : (fun t : RolledTerm => decide (t.term.origin = .base ∧ t.term.sign = .plus)) ∘
      RolledTerm.mapOrigin g =
        fun t => decide (t.term.origin = .base ∧ t.term.sign = .plus) :=
    funext fun t => decide_eq_decide.mpr (and_congr_left' (h t.term.origin))
  rw [baseDice, List.filter_map, hbase, List.flatMap_map]
  rfl

theorem criticalCount_mapOrigin :
    criticalCount (rolled.map (RolledTerm.mapOrigin g)) = criticalCount rolled := by
  rw [criticalCount, baseDice_mapOrigin h, criticalCount]

theorem fumbleCount_mapOrigin :
    fumbleCount (rolled.map (RolledTerm.mapOrigin g)) = fumbleCount rolled := by
  rw [fumbleCount, baseDice_mapOrigin h, fumbleCount]

theorem GroupKey.of?_mapOrigin (t : RolledTerm) :
    GroupKey.of? (t.mapOrigin g) = GroupKey.of? t := by
  simp only [of?, RolledTerm.mapOrigin_term, Term.mapOrigin_origin, h t.term.origin]
  rfl

theorem DiceGroup.ofRolled_mapOrigin :
    ofRolled (rolled.map (RolledTerm.mapOrigin g)) = ofRolled rolled := by
  have hkey : GroupKey.of? ∘ RolledTerm.mapOrigin g = GroupKey.of? :=
    funext (GroupKey.of?_mapOrigin h)
  simp only [ofRolled, List.filterMap_map, hkey, List.filter_map, List.flatMap_map,
    Function.comp_def, GroupKey.of?_mapOrigin h, RolledTerm.mapOrigin_dice]

theorem baseConstants_mapOrigin :
    baseConstants (rolled.map (RolledTerm.mapOrigin g)) = baseConstants rolled := by
  have hbase : (fun t : RolledTerm => decide (t.term.origin = .base)) ∘ RolledTerm.mapOrigin g =
      fun t => decide (t.term.origin = .base) :=
    funext fun t => decide_eq_decide.mpr (h t.term.origin)
  rw [baseConstants, List.filter_map, hbase, List.filterMap_map]
  rfl

theorem breakdownParts_mapOrigin (descriptions : List String) :
    breakdownParts (rolled.map (RolledTerm.mapOrigin g)) descriptions =
      breakdownParts rolled descriptions := by
  rw [breakdownParts, DiceGroup.ofRolled_mapOrigin h, baseConstants_mapOrigin h, breakdownParts]

/-- The line shows the same base dice and base constants. -/
theorem describe_mapOrigin (evaluation : Evaluation) (descriptions : List String) :
    describe (rolled.map (RolledTerm.mapOrigin g)) evaluation descriptions =
      describe rolled evaluation descriptions := by
  rw [describe, breakdownParts_mapOrigin h, describe]

end Base

/-! ## Terms that are not base terms -/

/-- The rolled terms of the formula itself. -/
def baseTerms (rolled : List RolledTerm) : List RolledTerm :=
  rolled.filter fun t => t.term.origin = .base

section BaseTerms

variable (rolled : List RolledTerm)

theorem baseDice_baseTerms : baseDice (baseTerms rolled) = baseDice rolled := by
  rw [baseDice, baseTerms, List.filter_filter, baseDice]
  congr 1
  refine List.filter_congr fun t _ => ?_
  rw [← Bool.decide_and]
  exact decide_eq_decide.mpr ⟨And.left, fun h => ⟨h, h.1⟩⟩

theorem criticalCount_baseTerms : criticalCount (baseTerms rolled) = criticalCount rolled := by
  rw [criticalCount, baseDice_baseTerms, criticalCount]

theorem fumbleCount_baseTerms : fumbleCount (baseTerms rolled) = fumbleCount rolled := by
  rw [fumbleCount, baseDice_baseTerms, fumbleCount]

/-- Only a base term has a group. -/
theorem GroupKey.origin_of_of?_eq_some {t : RolledTerm} {key : GroupKey}
    (h : of? t = some key) : t.term.origin = .base := by
  by_contra horigin
  rw [of?, if_neg horigin] at h
  cases h

theorem DiceGroup.ofRolled_baseTerms : ofRolled (baseTerms rolled) = ofRolled rolled := by
  have hkeys : (baseTerms rolled).filterMap GroupKey.of? = rolled.filterMap GroupKey.of? := by
    have hkey : (fun t : RolledTerm =>
        if decide (t.term.origin = .base) = true then GroupKey.of? t else none) = GroupKey.of? := by
      funext t
      by_cases h : t.term.origin = .base
      · exact if_pos (decide_eq_true h)
      · rw [if_neg (by simpa using h), GroupKey.of?, if_neg h]
    rw [baseTerms, List.filterMap_filter, hkey]
  have hgroup : ∀ key, (baseTerms rolled).filter (fun t => GroupKey.of? t = some key) =
      rolled.filter fun t => GroupKey.of? t = some key := by
    intro key
    rw [baseTerms, List.filter_filter]
    refine List.filter_congr fun t _ => ?_
    rw [← Bool.decide_and]
    exact decide_eq_decide.mpr ⟨And.left, fun h => ⟨h, GroupKey.origin_of_of?_eq_some h⟩⟩
  simp only [ofRolled, hkeys, hgroup]

theorem baseConstants_baseTerms : baseConstants (baseTerms rolled) = baseConstants rolled := by
  rw [baseConstants, baseTerms, List.filter_filter, baseConstants]
  simp only [Bool.and_self]

/-- What the line shows of the formula itself does not depend on other terms. -/
theorem breakdownParts_baseTerms (descriptions : List String) :
    breakdownParts (baseTerms rolled) descriptions = breakdownParts rolled descriptions := by
  rw [breakdownParts, DiceGroup.ofRolled_baseTerms, baseConstants_baseTerms, breakdownParts]

end BaseTerms

end Tabletop
