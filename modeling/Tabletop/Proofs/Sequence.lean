import Mathlib.Data.List.Forall2

/-!
# One item after another

* A function that may fail, applied to the items of a list in order: it answers for every item
  (`exists_mapM_ok`), or stops at the first item that it fails for (`exists_mapM_error`,
  `mapM_append_error`).
* A list is cut in front of the first item that fails a test (`span_append`), and so in one way only
  (`append_inj_of_forall`, `append_cons_inj_of_notMem`).
-/

namespace Tabletop.Sequence

universe u v

variable {ε : Type u} {α β : Type v} {f : α → Except ε β}

theorem mapM_cons_ok {x : α} {y : β} (xs : List α) (h : f x = .ok y) :
    (x :: xs).mapM f = (xs.mapM f).map (y :: ·) := by
  rw [List.mapM_cons, h]
  cases xs.mapM f <;> rfl

theorem mapM_cons_error {x : α} {e : ε} (xs : List α) (h : f x = .error e) :
    (x :: xs).mapM f = .error e := by
  rw [List.mapM_cons, h]
  rfl

/-- If each item succeeds with a related answer, so do all of them. -/
theorem exists_mapM_ok {R : α → β → Prop} {xs : List α}
    (h : ∀ x ∈ xs, ∃ y, f x = .ok y ∧ R x y) :
    ∃ ys, xs.mapM f = .ok ys ∧ List.Forall₂ R xs ys := by
  induction xs with
  | nil => exact ⟨[], rfl, .nil⟩
  | cons x xs ih =>
    obtain ⟨⟨y, hy, hxy⟩, hxs⟩ := List.forall_mem_cons.mp h
    obtain ⟨ys, hys, hall⟩ := ih hxs
    refine ⟨y :: ys, ?_, .cons hxy hall⟩
    rw [mapM_cons_ok xs hy, hys]
    rfl

/-- If some item fails, the first one that does decides. -/
theorem exists_mapM_error {xs : List α} (h : ∃ x ∈ xs, ∃ e, f x = .error e) :
    ∃ before x after e, xs = before ++ x :: after ∧ (∀ w ∈ before, ∃ y, f w = .ok y) ∧
      f x = .error e ∧ xs.mapM f = .error e := by
  induction xs with
  | nil => simp at h
  | cons w xs ih =>
    cases hw : f w with
    | error e => exact ⟨[], w, xs, e, rfl, nofun, hw, mapM_cons_error xs hw⟩
    | ok y =>
      obtain ⟨x, hx, e, he⟩ := h
      have hxs : x ∈ xs := by
        rcases List.mem_cons.mp hx with rfl | hx
        · rw [he] at hw
          cases hw
        · exact hx
      obtain ⟨before, x', after, e', rfl, hbefore, he', hfail⟩ := ih ⟨x, hxs, e, he⟩
      refine ⟨w :: before, x', after, e', rfl, ?_, he', ?_⟩
      · exact List.forall_mem_cons.mpr ⟨⟨y, hw⟩, hbefore⟩
      · rw [mapM_cons_ok _ hw, hfail]
        rfl

/-- The error of an item decides when those in front of it succeed. -/
theorem mapM_append_error {before after : List α} {x : α} {e : ε}
    (hbefore : ∀ w ∈ before, ∃ y, f w = .ok y) (hx : f x = .error e) :
    (before ++ x :: after).mapM f = .error e := by
  induction before with
  | nil => exact mapM_cons_error after hx
  | cons w before ih =>
    obtain ⟨⟨y, hy⟩, hbefore⟩ := List.forall_mem_cons.mp hbefore
    rw [List.cons_append, mapM_cons_ok _ hy, ih hbefore]
    rfl

/-- If each item is related to something, a list of such pairs has the items in order. -/
theorem exists_pairs {γ : Type*} {δ : Type*} {R : γ → δ → Prop} {xs : List γ}
    (h : ∀ x ∈ xs, ∃ y, R x y) :
    ∃ pairs : List (γ × δ), pairs.map Prod.fst = xs ∧ ∀ pair ∈ pairs, R pair.1 pair.2 := by
  induction xs with
  | nil => exact ⟨[], rfl, nofun⟩
  | cons x xs ih =>
    obtain ⟨⟨y, hy⟩, hxs⟩ := List.forall_mem_cons.mp h
    obtain ⟨pairs, rfl, hpairs⟩ := ih hxs
    exact ⟨(x, y) :: pairs, rfl, List.forall_mem_cons.mpr ⟨hy, hpairs⟩⟩

/-- What is related to a list in order has each of its items from some item of the list. -/
theorem exists_of_mem_right {γ : Type*} {δ : Type*} {R : γ → δ → Prop} {xs : List γ} {ys : List δ}
    (h : List.Forall₂ R xs ys) {y : δ} (hy : y ∈ ys) : ∃ x ∈ xs, R x y := by
  induction h with
  | nil => cases hy
  | @cons x y' xs ys hxy _ ih =>
    rcases List.mem_cons.mp hy with rfl | hy
    · exact ⟨x, List.mem_cons_self, hxy⟩
    · obtain ⟨w, hw, hwy⟩ := ih hy
      exact ⟨w, List.mem_cons_of_mem _ hw, hwy⟩

/-! ## Cutting off the front -/

section Cutting

variable {xs ys rest others : List α}

/-- Items that satisfy a test are cut off where an item follows that does not. -/
theorem span_append {p : α → Bool} (rest : List α) (hxs : ∀ x ∈ xs, p x = true)
    (hrest : ∀ x ∈ rest.head?, p x = false) :
    (xs ++ rest).takeWhile p = xs ∧ (xs ++ rest).dropWhile p = rest := by
  have hstop : rest.takeWhile p = [] ∧ rest.dropWhile p = rest := by
    cases rest with
    | nil => exact ⟨rfl, rfl⟩
    | cons x rest =>
      have hx : ¬ p x = true := Bool.eq_false_iff.mp (hrest x rfl)
      exact ⟨List.takeWhile_cons_of_neg hx, List.dropWhile_cons_of_neg hx⟩
  rw [List.takeWhile_append_of_pos hxs, List.dropWhile_append_of_pos hxs, hstop.1, hstop.2,
    List.append_nil]
  exact ⟨rfl, rfl⟩

theorem append_inj_of_forall {p : α → Bool} (hxs : ∀ x ∈ xs, p x = true)
    (hys : ∀ y ∈ ys, p y = true) (hrest : ∀ x ∈ rest.head?, p x = false)
    (hothers : ∀ y ∈ others.head?, p y = false) (h : xs ++ rest = ys ++ others) :
    xs = ys ∧ rest = others := by
  obtain ⟨htake, hdrop⟩ := span_append rest hxs hrest
  obtain ⟨htake', hdrop'⟩ := span_append others hys hothers
  rw [h] at htake hdrop
  exact ⟨htake.symm.trans htake', hdrop.symm.trans hdrop'⟩

/-- A list is cut at its first separator in one way only. -/
theorem append_cons_inj_of_notMem {separator : α} (hxs : separator ∉ xs) (hys : separator ∉ ys)
    (h : xs ++ separator :: rest = ys ++ separator :: others) : xs = ys ∧ rest = others := by
  classical
  have hne : ∀ {items : List α}, separator ∉ items → ∀ x ∈ items, decide (x ≠ separator) = true :=
    fun hitems x hx => decide_eq_true (ne_of_mem_of_not_mem hx hitems)
  obtain ⟨rfl, hrest⟩ := append_inj_of_forall (hne hxs) (hne hys) (by simp) (by simp) h
  exact ⟨rfl, (List.cons.inj hrest).2⟩

end Cutting

end Tabletop.Sequence
