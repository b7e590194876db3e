import Mathlib.Algebra.BigOperators.Group.List.Basic
import Mathlib.Algebra.Module.NatInt
import Mathlib.Data.List.Forall2
import Mathlib.Data.List.Infix
import Tabletop.Amount

/-!
# Running totals

A total adds amounts one after the other and stops at the ends of the range each time, so that it is
not the same for every order. It still grows with its amounts, and it is exact where no sum on the
way leaves the range.

* `Amount.exactSum`, `Amount.weight` — the exact sum of amounts, and that of their distances from
  zero.
* `Amount.total_le_total` — greater amounts have a greater total, also when it stops on the way.
* `Amount.StaysInRange` — every sum on the way is in range; then the total is exact
  (`Amount.toInt_total`).
* `Amount.toInt_total_of_weight_le` — so it is when the distances from zero add up to an amount;
  then the order does not matter (`Amount.total_eq_of_perm`).
-/

namespace Tabletop.Amount

/-! ## Exact sums -/

/-- The exact sum of amounts. -/
def exactSum (amounts : List Amount) : Int :=
  (amounts.map Int64.toInt).sum

/-- The sum of the distances of amounts from zero. -/
def weight (amounts : List Amount) : Nat :=
  (amounts.map fun a => a.toInt.natAbs).sum

@[simp] theorem exactSum_nil : exactSum [] = 0 := rfl

@[simp] theorem exactSum_cons (a : Amount) (rest : List Amount) :
    exactSum (a :: rest) = a.toInt + exactSum rest := by
  simp [exactSum]

@[simp] theorem exactSum_append (xs ys : List Amount) :
    exactSum (xs ++ ys) = exactSum xs + exactSum ys := by
  simp [exactSum]

@[simp] theorem weight_cons (a : Amount) (rest : List Amount) :
    weight (a :: rest) = a.toInt.natAbs + weight rest := by
  simp [weight]

theorem exactSum_flatMap {α : Type} (f : α → List Amount) (xs : List α) :
    exactSum (xs.flatMap f) = (xs.map fun x => exactSum (f x)).sum := by
  induction xs with
  | nil => rfl
  | cons x xs ih => rw [List.flatMap_cons, exactSum_append, ih, List.map_cons, List.sum_cons]

theorem exactSum_eq_of_perm {xs ys : List Amount} (h : xs.Perm ys) : exactSum xs = exactSum ys :=
  (h.map _).sum_eq

theorem weight_eq_of_perm {xs ys : List Amount} (h : xs.Perm ys) : weight xs = weight ys :=
  (h.map _).sum_eq

theorem weight_le_of_sublist {xs ys : List Amount} (h : xs.Sublist ys) : weight xs ≤ weight ys := by
  induction h with
  | slnil => exact Nat.le_refl 0
  | cons a _ ih =>
    rw [weight_cons]
    omega
  | cons_cons a _ ih =>
    rw [weight_cons, weight_cons]
    omega

/-- A sum is no farther from zero than its amounts together. -/
theorem natAbs_exactSum_le (amounts : List Amount) :
    (exactSum amounts).natAbs ≤ weight amounts := by
  induction amounts with
  | nil => exact Nat.le_refl 0
  | cons a rest ih =>
    rw [exactSum_cons, weight_cons]
    omega

/-! ## Totals -/

theorem add_le_add {a b c d : Amount} (hab : a ≤ b) (hcd : c ≤ d) : a.add c ≤ b.add d := by
  rw [Int64.le_iff_toInt_le] at hab hcd ⊢
  rw [toInt_add, toInt_add]
  omega

/-- **Greater amounts have a greater total.** Both totals may stop at the ends of the range on the
way; a step keeps the order of what it starts from. -/
theorem total_le_total {start start' : Amount} {xs ys : List Amount} (hstart : start ≤ start')
    (h : List.Forall₂ (· ≤ ·) xs ys) : total start xs ≤ total start' ys := by
  induction h generalizing start start' with
  | nil => exact hstart
  | cons hxy _ ih =>
    rw [total_cons, total_cons]
    exact ih (add_le_add hstart hxy)

theorem toInt_add_of_inRange {a b : Amount} (hleast : least ≤ a.toInt + b.toInt)
    (hgreatest : a.toInt + b.toInt ≤ greatest) : (a.add b).toInt = a.toInt + b.toInt := by
  rw [toInt_add]
  omega

/-- **A total is exact when every sum on the way is in range.** -/
theorem toInt_total {start : Amount} {amounts : List Amount}
    (h : ∀ front, front <+: amounts →
      least ≤ start.toInt + exactSum front ∧ start.toInt + exactSum front ≤ greatest) :
    (total start amounts).toInt = start.toInt + exactSum amounts := by
  induction amounts generalizing start with
  | nil => rw [total_nil, exactSum_nil, Int.add_zero]
  | cons a rest ih =>
    have hfirst := h [a] (by simp)
    rw [exactSum_cons, exactSum_nil, Int.add_zero] at hfirst
    have hadd : (start.add a).toInt = start.toInt + a.toInt :=
      toInt_add_of_inRange hfirst.1 hfirst.2
    have hrest : ∀ front, front <+: rest → least ≤ (start.add a).toInt + exactSum front ∧
        (start.add a).toInt + exactSum front ≤ greatest := by
      intro front hfront
      have hsum := h (a :: front) (List.cons_prefix_cons.mpr ⟨rfl, hfront⟩)
      rwa [exactSum_cons, ← Int.add_assoc, ← hadd] at hsum
    rw [total_cons, ih hrest, hadd, exactSum_cons, Int.add_assoc]

/-- Every sum on the way, from the left, is an amount. -/
def StaysInRange (amounts : List Amount) : Prop :=
  ∀ front, front <+: amounts → least ≤ exactSum front ∧ exactSum front ≤ greatest

instance decidableStaysInRange (amounts : List Amount) : Decidable (StaysInRange amounts) :=
  decidable_of_iff (∀ front ∈ amounts.inits, least ≤ exactSum front ∧ exactSum front ≤ greatest)
    (forall_congr' fun front => by rw [List.mem_inits])

theorem StaysInRange.of_prefix {xs ys : List Amount} (h : StaysInRange ys) (hle : xs <+: ys) :
    StaysInRange xs :=
  fun front hfront => h front (hfront.trans hle)

/-- Such amounts have an exact total. -/
theorem StaysInRange.toInt_total {amounts : List Amount} (h : StaysInRange amounts) :
    (total 0 amounts).toInt = exactSum amounts := by
  have hzero : (0 : Amount).toInt = 0 := rfl
  rw [Amount.toInt_total, hzero, Int.zero_add]
  intro front hfront
  rw [hzero, Int.zero_add]
  exact h front hfront

/-- Amounts that together are no farther from zero than the greatest one stay in range. -/
theorem staysInRange_of_weight_le {amounts : List Amount} (h : (weight amounts : Int) ≤ greatest) :
    StaysInRange amounts := by
  intro front hfront
  have hsum := natAbs_exactSum_le front
  have hweight := weight_le_of_sublist hfront.sublist
  rw [least, greatest] at *
  omega

/-- So they have an exact total. -/
theorem toInt_total_of_weight_le {amounts : List Amount} (h : (weight amounts : Int) ≤ greatest) :
    (total 0 amounts).toInt = exactSum amounts :=
  (staysInRange_of_weight_le h).toInt_total

/-- The order of such amounts does not matter. -/
theorem total_eq_of_perm {xs ys : List Amount} (hperm : xs.Perm ys)
    (h : (weight xs : Int) ≤ greatest) : total 0 xs = total 0 ys := by
  have hys : (weight ys : Int) ≤ greatest := by rwa [← weight_eq_of_perm hperm]
  rw [← Int64.toInt_inj, toInt_total_of_weight_le h, toInt_total_of_weight_le hys,
    exactSum_eq_of_perm hperm]

/-- Beyond that it does: a total that stops at the greatest amount comes back from there. -/
example : total 0 [9223372036854775807, 1, -1] ≠ total 0 [9223372036854775807, -1, 1] := by
  decide

end Tabletop.Amount
