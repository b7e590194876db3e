import Mathlib.Data.List.Forall2
import Tabletop.Dice.Roll

/-!
# The stream of dice

Rolling reads its source of dice as one stream: the faces shown, term by term, die by die and face
by face, are the answers of the source in the order given, none lost, repeated or moved.

* `DieSource.draw` — asks a source for dice of given sizes, one after the other.
* `RolledTerm.asked` — the sizes of the dice that a rolled term drew.
* `rollTerms_draw` — a roll is a draw of the sizes asked for, with the same faces and state.
* `Script.draw_eq`, `Script.draw_self` — what a script hands out: the faces of consecutive places,
  and its own faces when they are those of the dice asked for.
-/

namespace Tabletop

/-! ## Drawing -/

section Drawing

variable {σ : Type} (source : DieSource σ)

/-- Asks a source for one die of each size, in order: the faces, and the state afterwards. -/
def DieSource.draw : List UInt32 → σ → List UInt32 × σ
  | [], s => ([], s)
  | sides :: rest, s =>
    let (face, s) := source.roll s sides
    let (faces, s) := draw rest s
    (face :: faces, s)

@[simp] theorem DieSource.draw_nil (s : σ) : source.draw [] s = ([], s) := rfl

theorem DieSource.draw_cons (sides : UInt32) (rest : List UInt32) (s : σ) :
    source.draw (sides :: rest) s =
      ((source.roll s sides).1 :: (source.draw rest (source.roll s sides).2).1,
        (source.draw rest (source.roll s sides).2).2) := rfl

/-- Drawing goes on where it stopped. -/
theorem DieSource.draw_append {xs ys faces others : List UInt32} {s s' s'' : σ}
    (hx : source.draw xs s = (faces, s')) (hy : source.draw ys s' = (others, s'')) :
    source.draw (xs ++ ys) s = (faces ++ others, s'') := by
  induction xs generalizing s faces with
  | nil =>
    obtain ⟨rfl, rfl⟩ := Prod.mk.inj hx
    exact hy
  | cons sides xs ih =>
    rw [draw_cons, Prod.mk.injEq] at hx
    obtain ⟨rfl, rfl⟩ := hx
    rw [List.cons_append, draw_cons, ih rfl, List.cons_append]

end Drawing

/-! ## The sizes asked for -/

/-- The sizes of the dice that a rolled term drew, explosions included. -/
def RolledTerm.asked (t : RolledTerm) : List UInt32 :=
  match t.term.kind with
  | .constant _ => []
  | .dice _ sides => List.replicate t.faces.length sides

section Kinds

variable {t : RolledTerm} {value : Amount} {count sides : UInt32}

theorem RolledTerm.asked_of_constant (h : t.term.kind = .constant value) : t.asked = [] := by
  rw [RolledTerm.asked, h]

theorem RolledTerm.asked_of_dice (h : t.term.kind = .dice count sides) :
    t.asked = List.replicate t.faces.length sides := by
  rw [RolledTerm.asked, h]

end Kinds

/-! ## One die -/

section Rolling

variable {σ : Type} (source : DieSource σ) (explosions : Explosions)

theorem explode_of_le {sides threshold last : UInt32} (h : threshold ≤ last) (room : Nat) (s : σ) :
    explode source sides threshold (room + 1) last s =
      (((source.roll s sides).1 ::
          (explode source sides threshold room (source.roll s sides).1 (source.roll s sides).2).1.1,
        (explode source sides threshold room (source.roll s sides).1 (source.roll s sides).2).1.2),
        (explode source sides threshold room (source.roll s sides).1
          (source.roll s sides).2).2) := by
  rw [explode, if_pos h]

theorem explode_of_not_le {sides threshold last : UInt32} (h : ¬ threshold ≤ last) (room : Nat)
    (s : σ) : explode source sides threshold (room + 1) last s = (([], false), s) := by
  rw [explode, if_neg h]

/-- The explosions after a roll are the next answers of the source. -/
theorem explode_draw (sides threshold : UInt32) (room : Nat) (last : UInt32) (s : σ) :
    source.draw (List.replicate (explode source sides threshold room last s).1.1.length sides) s =
      ((explode source sides threshold room last s).1.1,
        (explode source sides threshold room last s).2) := by
  induction room generalizing last s with
  | zero => rfl
  | succ room ih =>
    -- only a face that explodes draws again
    by_cases h : threshold ≤ last
    · rw [explode_of_le source h, List.length_cons, List.replicate_succ, DieSource.draw_cons, ih]
    · rw [explode_of_not_le source h]
      rfl

theorem rollDie_draw (sides : UInt32) (s : σ) :
    source.draw (List.replicate (rollDie source explosions sides s).1.rolls.length sides) s =
      ((rollDie source explosions sides s).1.rolls, (rollDie source explosions sides s).2) := by
  rw [rollDie]
  cases explosions.threshold? sides with
  | none => rfl
  | some threshold =>
    have hdraw := explode_draw source sides threshold explosions.cap.toNat
      (source.roll s sides).1 (source.roll s sides).2
    dsimp only
    rw [List.length_cons, List.replicate_succ, DieSource.draw_cons, hdraw]

/-! ## Groups of dice and terms -/

theorem rollDice_succ (sides : UInt32) (count : Nat) (s : σ) :
    rollDice source explosions sides (count + 1) s =
      ((rollDie source explosions sides s).1 ::
          (rollDice source explosions sides count (rollDie source explosions sides s).2).1,
        (rollDice source explosions sides count (rollDie source explosions sides s).2).2) := rfl

theorem rollDice_draw (sides : UInt32) (count : Nat) (s : σ) :
    source.draw (List.replicate
        ((rollDice source explosions sides count s).1.flatMap RolledDie.rolls).length sides) s =
      ((rollDice source explosions sides count s).1.flatMap RolledDie.rolls,
        (rollDice source explosions sides count s).2) := by
  induction count generalizing s with
  | zero => rfl
  | succ count ih =>
    rw [rollDice_succ, List.flatMap_cons, List.length_append, ← List.replicate_append_replicate]
    exact source.draw_append (rollDie_draw source explosions sides s) (ih _)

theorem rollTerm_of_constant {t : Term} {value : Amount} (h : t.kind = .constant value) (s : σ) :
    rollTerm source explosions t s = (⟨t, .constant (t.sign.apply value)⟩, s) := by
  rw [rollTerm, h]

theorem rollTerm_of_dice {t : Term} {count sides : UInt32} (h : t.kind = .dice count sides)
    (s : σ) :
    rollTerm source explosions t s =
      (⟨t, .dice (rollDice source explosions sides count.toNat s).1⟩,
        (rollDice source explosions sides count.toNat s).2) := by
  rw [rollTerm, h]

theorem rollTerm_draw (t : Term) (s : σ) :
    source.draw (rollTerm source explosions t s).1.asked s =
      ((rollTerm source explosions t s).1.faces, (rollTerm source explosions t s).2) := by
  cases h : t.kind with
  | constant value =>
    rw [rollTerm_of_constant source explosions h, RolledTerm.asked_of_constant h]
    rfl
  | dice count sides =>
    rw [rollTerm_of_dice source explosions h, RolledTerm.asked_of_dice h]
    exact rollDice_draw source explosions sides count.toNat s

/-! ## The terms of a formula -/

theorem rollTerms_cons (t : Term) (ts : List Term) (s : σ) :
    rollTerms source explosions (t :: ts) s =
      ((rollTerm source explosions t s).1 ::
          (rollTerms source explosions ts (rollTerm source explosions t s).2).1,
        (rollTerms source explosions ts (rollTerm source explosions t s).2).2) := rfl

/-- The terms rolled are those of the formula, in order. -/
theorem Formula.map_term_roll (f : Formula) (s : σ) :
    (f.roll source explosions s).1.map RolledTerm.term = f.terms :=
  map_term_rollTerms source explosions f.terms s

/-- **The faces that terms show are the answers of the source, in order.** Nothing else is drawn:
the state afterwards is the one after these draws. -/
theorem rollTerms_draw (ts : List Term) (s : σ) :
    source.draw ((rollTerms source explosions ts s).1.flatMap RolledTerm.asked) s =
      ((rollTerms source explosions ts s).1.flatMap RolledTerm.faces,
        (rollTerms source explosions ts s).2) := by
  induction ts generalizing s with
  | nil => rfl
  | cons t ts ih =>
    rw [rollTerms_cons, List.flatMap_cons, List.flatMap_cons]
    exact source.draw_append (rollTerm_draw source explosions t s) (ih _)

end Rolling

/-! ## Scripts -/

theorem toNat_nearestFace (face sides : UInt32) :
    (nearestFace face sides).toNat = max 1 (min face.toNat (max 1 sides.toNat)) := by
  have hone : (1 : UInt32).toNat = 1 := rfl
  unfold nearestFace
  simp only [UInt32.lt_iff_toNat_lt, hone]
  split
  · omega
  · split
    · omega
    · split <;> omega

/-- A face of the die is shown as it is. -/
theorem nearestFace_of_inRange {face sides : UInt32}
    (h : 1 ≤ face.toNat ∧ face.toNat ≤ sides.toNat) : nearestFace face sides = face := by
  rw [← UInt32.toNat_inj, toNat_nearestFace]
  omega

namespace Script

/-- **A script hands out the faces of consecutive places**, each brought into the range of its
die. -/
theorem draw_eq (faces sizes : List UInt32) (n : Nat) :
    source.draw sizes ⟨faces, n⟩ =
      (sizes.mapIdx fun i sides => nearestFace (faceAt faces (n + i)) sides,
        ⟨faces, n + sizes.length⟩) := by
  induction sizes generalizing n with
  | nil => rfl
  | cons sides rest ih =>
    have hplace : ∀ i, n + 1 + i = n + (i + 1) := fun i => by omega
    rw [DieSource.draw_cons, source_roll, ih, List.mapIdx_cons, List.length_cons]
    simp only [hplace, Nat.add_zero]

theorem faceAt_of_lt {faces : List UInt32} {i : Nat} (h : i < faces.length) :
    faceAt faces i = faces[i] := by
  rw [faceAt, Nat.mod_eq_of_lt h, List.getElem?_eq_getElem h, Option.getD_some]

/-- A script that holds a face of each die asked for hands out these faces. -/
theorem draw_self {sizes faces : List UInt32}
    (h : List.Forall₂ (fun sides face => 1 ≤ face.toNat ∧ face.toNat ≤ sides.toNat) sizes faces) :
    (source.draw sizes ⟨faces, 0⟩).1 = faces := by
  rw [draw_eq]
  refine List.ext_getElem ?_ ?_
  · rw [List.length_mapIdx, h.length_eq]
  · intro i hi hi'
    rw [List.getElem_mapIdx, Nat.zero_add, faceAt_of_lt hi']
    exact nearestFace_of_inRange (h.get _ hi')

end Script

end Tabletop
