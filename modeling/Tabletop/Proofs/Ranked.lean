import Mathlib.Data.List.Nodup
import Tabletop.Description

/-!
# Ranked lists

The dice groups of a line are listed in a fixed order, each once, whatever the order of the dice in
the formula.

* `Ranking` — an order in which any two different items compare.
* `mem_ranked`, `pairwise_ranked`, `nodup_ranked` — the same items, in order, none twice.
* `GroupKey.ranking` — the order of dice groups is of this kind.
-/

namespace Tabletop

/-- A strict order in which any two different items compare. -/
structure Ranking {α : Type} (before : α → α → Bool) : Prop where
  irrefl : ∀ a, ¬before a a = true
  trans : ∀ {a b c}, before a b = true → before b c = true → before a c = true
  connex : ∀ {a b}, ¬before a b = true → ¬before b a = true → a = b

section Ranked

variable {α : Type} {before : α → α → Bool} (h : Ranking before)

include h

/-- An item whose place is taken is in the list already. -/
theorem mem_insertRanked {x y : α} {ys : List α} :
    x ∈ insertRanked before y ys ↔ x = y ∨ x ∈ ys := by
  induction ys with
  | nil => simp [insertRanked]
  | cons z zs ih =>
    rw [insertRanked]
    split
    · exact List.mem_cons
    · split
      · rw [List.mem_cons, ih, List.mem_cons, or_left_comm]
      · next hyz hzy =>
        obtain rfl := h.connex hyz hzy
        simp

theorem mem_ranked {x : α} {xs : List α} : x ∈ ranked before xs ↔ x ∈ xs := by
  induction xs with
  | nil => exact Iff.rfl
  | cons y ys ih => rw [ranked, List.foldr_cons, mem_insertRanked h, ← ranked, ih, List.mem_cons]

theorem pairwise_insertRanked {y : α} {ys : List α}
    (hys : ys.Pairwise fun a b => before a b = true) :
    (insertRanked before y ys).Pairwise fun a b => before a b = true := by
  induction ys with
  | nil => exact List.pairwise_singleton _ _
  | cons z zs ih =>
    obtain ⟨hz, hzs⟩ := List.pairwise_cons.mp hys
    rw [insertRanked]
    split
    · next hyz =>
      refine List.pairwise_cons.mpr ⟨fun w hw => ?_, hys⟩
      rcases List.mem_cons.mp hw with rfl | hw
      · exact hyz
      · exact h.trans hyz (hz w hw)
    · split
      · next hzy =>
        refine List.pairwise_cons.mpr ⟨fun w hw => ?_, ih hzs⟩
        rcases (mem_insertRanked h).mp hw with rfl | hw
        · exact hzy
        · exact hz w hw
      · exact hys

theorem pairwise_ranked (xs : List α) :
    (ranked before xs).Pairwise fun a b => before a b = true := by
  induction xs with
  | nil => exact .nil
  | cons y ys ih => exact pairwise_insertRanked h ih

theorem nodup_ranked (xs : List α) : (ranked before xs).Nodup := by
  refine (pairwise_ranked h xs).imp ?_
  rintro a b hab rfl
  exact h.irrefl a hab

end Ranked

theorem GroupKey.before_iff {a b : GroupKey} : before a b = true ↔
    b.sides.toNat < a.sides.toNat ∨
      a.sides = b.sides ∧ a.sign = .plus ∧ b.sign = .minus := by
  simp [before, UInt32.lt_iff_toNat_lt, and_assoc]

theorem GroupKey.ranking : Ranking before where
  irrefl a := by
    rw [before_iff]
    rintro (hlt | ⟨-, hplus, hminus⟩)
    · exact Nat.lt_irrefl _ hlt
    · rw [hplus] at hminus
      cases hminus
  trans := by
    intro a b c hab hbc
    rw [before_iff] at hab hbc ⊢
    rcases hab with hab | ⟨hab, hplus, hminus⟩
    · rcases hbc with hbc | ⟨hbc, -⟩
      · exact .inl (Nat.lt_trans hbc hab)
      · exact .inl (hbc ▸ hab)
    · rcases hbc with hbc | ⟨-, hplus', -⟩
      · exact .inl (hab ▸ hbc)
      · rw [hminus] at hplus'
        cases hplus'
  connex := by
    intro a b hab hba
    rw [before_iff, not_or] at hab hba
    obtain ⟨sides, sign⟩ := a
    obtain ⟨sides', sign'⟩ := b
    obtain rfl : sides = sides' :=
      UInt32.toNat_inj.mp (Nat.le_antisymm (Nat.le_of_not_lt hab.1) (Nat.le_of_not_lt hba.1))
    -- of the two signs of one size, added dice come first
    cases sign with
    | plus =>
      cases sign' with
      | plus => rfl
      | minus => exact absurd ⟨rfl, rfl, rfl⟩ hab.2
    | minus =>
      cases sign' with
      | plus => exact absurd ⟨rfl, rfl, rfl⟩ hba.2
      | minus => rfl

end Tabletop
