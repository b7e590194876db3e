import Tabletop.Proofs.Verdict
import Tabletop.Session

/-!
# Sources in lockstep

Rolling asks a source for faces and for nothing else. Two sources that go on showing the same faces
therefore have the same answers, whatever their states hold.

* `DieSource.Lockstep` — a relation between the states of two sources that every roll keeps, with
  the same face.
* `Alike` — the same answer, and related states afterwards.
* `rollTerms_alike`, `resolve_alike` — formulas and requests, from related states.
* `Session.runAll_alike` — sessions, from related states.
-/

namespace Tabletop

section Die

variable {σ : Type} (source : DieSource σ) {explosions : Explosions} {sides : UInt32}

theorem rollDie_of_none (h : explosions.threshold? sides = none) (s : σ) :
    rollDie source explosions sides s =
      (⟨[(source.roll s sides).1], false⟩, (source.roll s sides).2) := by
  rw [rollDie, h]

theorem rollDie_of_threshold {threshold : UInt32} (h : explosions.threshold? sides = some threshold)
    (s : σ) :
    rollDie source explosions sides s =
      (⟨(source.roll s sides).1 :: (explode source sides threshold explosions.cap.toNat
            (source.roll s sides).1 (source.roll s sides).2).1.1,
          (explode source sides threshold explosions.cap.toNat (source.roll s sides).1
            (source.roll s sides).2).1.2⟩,
        (explode source sides threshold explosions.cap.toNat (source.roll s sides).1
          (source.roll s sides).2).2) := by
  rw [rollDie, h]

end Die

section Lockstep

variable {σ τ : Type}

/-- The same answer, and related states afterwards. -/
def Alike {α : Type} (R : σ → τ → Prop) (x : α × σ) (y : α × τ) : Prop :=
  x.1 = y.1 ∧ R x.2 y.2

/-- From related states a die shows the same face with both sources, and the states stay related. -/
def DieSource.Lockstep (source : DieSource σ) (other : DieSource τ) (R : σ → τ → Prop) : Prop :=
  ∀ {s s'}, R s s' → ∀ sides, Alike R (source.roll s sides) (other.roll s' sides)

variable {source : DieSource σ} {other : DieSource τ} {R : σ → τ → Prop}
  (h : source.Lockstep other R)

include h

/-! ## Dice -/

theorem explode_alike (sides threshold : UInt32) (room : Nat) (last : UInt32) {s : σ} {s' : τ}
    (hs : R s s') :
    Alike R (explode source sides threshold room last s)
      (explode other sides threshold room last s') := by
  induction room generalizing last s s' with
  | zero => exact ⟨rfl, hs⟩
  | succ room ih =>
    by_cases hlast : threshold ≤ last
    · obtain ⟨hface, hs⟩ := h hs sides
      obtain ⟨hrolls, hs⟩ := ih (source.roll s sides).1 hs
      rw [explode_of_le source hlast, explode_of_le other hlast, ← hface, ← hrolls]
      exact ⟨rfl, hs⟩
    · rw [explode_of_not_le source hlast, explode_of_not_le other hlast]
      exact ⟨rfl, hs⟩

theorem rollDie_alike (explosions : Explosions) (sides : UInt32) {s : σ} {s' : τ} (hs : R s s') :
    Alike R (rollDie source explosions sides s) (rollDie other explosions sides s') := by
  obtain ⟨hface, hs⟩ := h hs sides
  cases ht : explosions.threshold? sides with
  | none =>
    rw [rollDie_of_none source ht, rollDie_of_none other ht, ← hface]
    exact ⟨rfl, hs⟩
  | some threshold =>
    obtain ⟨hrolls, hs⟩ :=
      explode_alike h sides threshold explosions.cap.toNat (source.roll s sides).1 hs
    rw [rollDie_of_threshold source ht, rollDie_of_threshold other ht, ← hface, ← hrolls]
    exact ⟨rfl, hs⟩

theorem rollDice_alike (explosions : Explosions) (sides : UInt32) (count : Nat) {s : σ} {s' : τ}
    (hs : R s s') :
    Alike R (rollDice source explosions sides count s)
      (rollDice other explosions sides count s') := by
  induction count generalizing s s' with
  | zero => exact ⟨rfl, hs⟩
  | succ count ih =>
    obtain ⟨hdie, hs⟩ := rollDie_alike h explosions sides hs
    obtain ⟨hdice, hs⟩ := ih hs
    rw [rollDice_succ, rollDice_succ, ← hdie, ← hdice]
    exact ⟨rfl, hs⟩

theorem rollTerm_alike (explosions : Explosions) (t : Term) {s : σ} {s' : τ} (hs : R s s') :
    Alike R (rollTerm source explosions t s) (rollTerm other explosions t s') := by
  cases hk : t.kind with
  | constant value =>
    rw [rollTerm_of_constant source explosions hk, rollTerm_of_constant other explosions hk]
    exact ⟨rfl, hs⟩
  | dice count sides =>
    obtain ⟨hdice, hs⟩ := rollDice_alike h explosions sides count.toNat hs
    rw [rollTerm_of_dice source explosions hk, rollTerm_of_dice other explosions hk, ← hdice]
    exact ⟨rfl, hs⟩

/-- **The terms of a formula roll the same** with both sources. -/
theorem rollTerms_alike (explosions : Explosions) (ts : List Term) {s : σ} {s' : τ}
    (hs : R s s') :
    Alike R (rollTerms source explosions ts s) (rollTerms other explosions ts s') := by
  induction ts generalizing s s' with
  | nil => exact ⟨rfl, hs⟩
  | cons t ts ih =>
    obtain ⟨hterm, hs⟩ := rollTerm_alike h explosions t hs
    obtain ⟨hterms, hs⟩ := ih hs
    rw [rollTerms_cons, rollTerms_cons, ← hterm, ← hterms]
    exact ⟨rfl, hs⟩

/-- **A request is answered the same** with both sources, also when the answer is an error. -/
theorem resolve_alike (config : Config) (request : Request) {s : σ} {s' : τ} (hs : R s s') :
    Alike R (resolve source config request s) (resolve other config request s') := by
  cases hp : prepare config request with
  | error e =>
    rw [resolve_of_error source s hp, resolve_of_error other s' hp]
    exact ⟨rfl, hs⟩
  | ok prepared =>
    obtain ⟨C, f⟩ := prepared
    obtain ⟨hrolled, hs⟩ := rollTerms_alike h C.explosions f.terms hs
    rw [resolve_of_ok source s hp, resolve_of_ok other s' hp, Formula.roll, Formula.roll,
      ← hrolled]
    exact ⟨rfl, hs⟩

end Lockstep

/-! ## Sessions -/

namespace Session

/-- The answer to a request that was resolved. -/
def Answer.ofResult : Except RollError Outcome → Answer
  | .ok o => .outcome o
  | .error e => .failed e

/-- Resolving keeps configuration and request. -/
theorem run_resolve {σ : Type} (source : DieSource σ) (session : Session σ) :
    session.run source .resolve =
      (.ofResult (Tabletop.resolve source session.config session.request session.state).1,
        { session with
          state := (Tabletop.resolve source session.config session.request session.state).2 }) := by
  rw [run]
  split
  · next hresolve => rw [hresolve, Answer.ofResult]
  · next hresolve => rw [hresolve, Answer.ofResult]

variable {σ τ : Type}

/-- Sessions with the same configuration and the same request, in related states. -/
structure Related (R : σ → τ → Prop) (a : Session σ) (b : Session τ) : Prop where
  config : a.config = b.config
  request : a.request = b.request
  state : R a.state b.state

variable {source : DieSource σ} {other : DieSource τ} {R : σ → τ → Prop}
  (h : source.Lockstep other R) {a : Session σ} {b : Session τ}

include h

/-- A step is answered the same in related sessions, which stay related. -/
theorem run_alike (hab : Related R a b) (step : Step) :
    Alike (Related R) (a.run source step) (b.run other step) := by
  obtain ⟨config, request, s⟩ := a
  obtain ⟨config', request', s'⟩ := b
  obtain ⟨rfl, rfl, hs⟩ := hab
  cases step with
  | resolve =>
    obtain ⟨hanswer, hs⟩ := resolve_alike h config request hs
    rw [run_resolve, run_resolve]
    exact ⟨congrArg Answer.ofResult hanswer, rfl, rfl, hs⟩
  | rollDie sides =>
    obtain ⟨hface, hs⟩ := h hs sides
    exact ⟨congrArg Answer.face hface, rfl, rfl, hs⟩
  | execute explosions formula =>
    obtain ⟨hrolled, hs⟩ := rollTerms_alike h explosions formula.terms hs
    exact ⟨congrArg Answer.rolled hrolled, rfl, rfl, hs⟩
  -- the other steps do not look at the state
  | _ => exact ⟨rfl, rfl, rfl, hs⟩

/-- **Related sessions have the same answers**, step after step. -/
theorem runAll_alike (hab : Related R a b) (steps : List Step) :
    Alike (Related R) (a.runAll source steps) (b.runAll other steps) := by
  induction steps generalizing a b with
  | nil => exact ⟨rfl, hab⟩
  | cons step rest ih =>
    obtain ⟨hanswer, hab⟩ := run_alike h hab step
    obtain ⟨hanswers, hab⟩ := ih hab
    exact ⟨congrArg₂ List.cons hanswer hanswers, hab⟩

end Session

end Tabletop
