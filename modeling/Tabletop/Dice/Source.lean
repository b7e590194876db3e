/-!
# Sources of dice

A source of dice is a state machine that answers, for a die of some number of sides, with a face.

* `DieSource` — the step of the machine.
* `DieSource.Fair` — every face lies between one and the number of sides.
* `Script.source` — replays a list of faces, over and over.
* `SeededDice` — a source that a seed sets up.
* `Generator.source` — a seeded generator, the same stream of faces for the same seed.
-/

namespace Tabletop

/-- A source of dice over states `σ`. -/
structure DieSource (σ : Type) where
  /-- rolls a die of the given number of sides: its face, and the state after the roll -/
  roll : σ → UInt32 → UInt32 × σ

/-- A source is fair when a die shows a face between one and its sides; a die without sides
shows one. -/
def DieSource.Fair {σ : Type} (source : DieSource σ) : Prop :=
  ∀ state sides, 1 ≤ (source.roll state sides).1 ∧
    ((source.roll state sides).1 ≤ sides ∨ (source.roll state sides).1 = 1)

/-- The face nearest to `face` on a die of `sides` sides. -/
def nearestFace (face sides : UInt32) : UInt32 :=
  if face < 1 then 1
  else if sides < 1 then 1
  else if sides < face then sides
  else face

theorem nearestFace_bounds (face sides : UInt32) :
    1 ≤ nearestFace face sides ∧ (nearestFace face sides ≤ sides ∨ nearestFace face sides = 1) := by
  unfold nearestFace
  simp only [UInt32.lt_iff_toNat_lt, UInt32.le_iff_toNat_le]
  split
  · exact ⟨Nat.le_refl _, .inr rfl⟩
  · split
    · exact ⟨Nat.le_refl _, .inr rfl⟩
    · split
      · exact ⟨by omega, .inl (Nat.le_refl _)⟩
      · exact ⟨by omega, .inl (by omega)⟩

/-! ## Scripts -/

/-- A list of faces to replay, and how many have been handed out. -/
structure Script where
  /-- the faces, replayed from the start when they run out -/
  faces : List UInt32
  /-- how many dice have been rolled so far -/
  consumed : Nat := 0
  deriving DecidableEq, Repr

namespace Script

/-- The face at a place of the endless replay; an empty script always shows one. -/
def faceAt (faces : List UInt32) (place : Nat) : UInt32 :=
  (faces[place % faces.length]?).getD 1

/-- Hands out the faces of a script, each brought into the range of the die rolled. -/
def source : DieSource Script where
  roll script sides :=
    (nearestFace (faceAt script.faces script.consumed) sides,
      { script with consumed := script.consumed + 1 })

theorem source_fair : source.Fair :=
  fun _ _ => nearestFace_bounds _ _

@[simp] theorem source_roll (script : Script) (sides : UInt32) :
    source.roll script sides =
      (nearestFace (faceAt script.faces script.consumed) sides,
        ⟨script.faces, script.consumed + 1⟩) := rfl

end Script

/-! ## Seeded generators -/

/-- A source of dice with a state to start from for every seed. -/
structure SeededDice where
  State : Type
  source : DieSource State
  seeded : UInt64 → State

/-- The state of a seeded generator: a counter that steps by a fixed odd number. -/
structure Generator where
  counter : UInt64
  deriving DecidableEq, Repr

namespace Generator

/-- The generator of a seed. -/
def seeded (seed : UInt64) : Generator :=
  ⟨seed⟩

/-- Scrambles a counter into a word whose bits all depend on all of the counter's. -/
def scramble (counter : UInt64) : UInt64 :=
  let a := (counter ^^^ (counter >>> 30)) * 0xBF58476D1CE4E5B9
  let b := (a ^^^ (a >>> 27)) * 0x94D049BB133111EB
  b ^^^ (b >>> 31)

/-- Rolls by reducing each scrambled word to the faces of the die. -/
def source : DieSource Generator where
  roll generator sides :=
    let counter := generator.counter + 0x9E3779B97F4A7C15
    let face := (scramble counter).toNat % Nat.max 1 sides.toNat + 1
    (nearestFace (UInt32.ofNat face) sides, ⟨counter⟩)

theorem source_fair : source.Fair :=
  fun _ _ => nearestFace_bounds _ _

/-- The generator, with the states of its seeds. -/
def dice : SeededDice :=
  ⟨Generator, source, seeded⟩

end Generator

end Tabletop
