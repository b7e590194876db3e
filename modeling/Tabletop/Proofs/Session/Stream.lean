import Mathlib.Algebra.Order.Ring.Nat
import Tabletop.Proofs.Outcome
import Tabletop.Proofs.Session.Lockstep

/-!
# One stream for a session

The steps of a session share one source. Each step draws the faces that come next, whether it
succeeds or not, and the step after it goes on from there. With a script the faces are known: they
are those of consecutive places of its endless replay.

* `Session.asked` — the sizes of the dice that a step draws.
* `Session.block`, `Session.blocks` — the faces that a step draws, and those of many steps.
* `Session.run_draw` — a step draws its block and shows it when it succeeds.
* `Script.SamePlace` — scripts that go on alike; `Script.lockstep_samePlace` says that they do.
* `Session.DrawsAt` — a block of a script, and what the step makes of it.
* `Session.shared_stream` — the blocks of a session, and what the steps after it depend on.
-/

namespace Tabletop

/-! ## Scripts -/

namespace Script

/-- Scripts with the same faces, at places where the replay goes on alike. -/
structure SamePlace (a b : Script) : Prop where
  faces : a.faces = b.faces
  place : a.faces ≠ [] → a.consumed % a.faces.length = b.consumed % a.faces.length

theorem faceAt_congr {faces : List UInt32} {m n : Nat}
    (h : faces ≠ [] → m % faces.length = n % faces.length) : faceAt faces m = faceAt faces n := by
  cases faces with
  | nil => rfl
  | cons face faces => rw [faceAt, h (List.cons_ne_nil _ _), faceAt]

/-- Scripts that go on alike do so after every die. -/
theorem lockstep_samePlace : source.Lockstep source SamePlace := by
  rintro ⟨faces, m⟩ ⟨faces', n⟩ ⟨rfl, hplace⟩ sides
  refine ⟨?_, rfl, ?_⟩
  · exact congrArg (nearestFace · sides) (faceAt_congr hplace)
  · intro hne
    dsimp only [source_roll]
    rw [Nat.add_mod, hplace hne, ← Nat.add_mod]

end Script

/-! ## What a step draws -/

namespace Session

section Blocks

variable {σ : Type} (source : DieSource σ)

/-- The sizes of the dice that a step draws, in order, explosions included. -/
def asked (session : Session σ) : Step → List UInt32
  | .resolve =>
    match prepare session.config session.request with
    | .ok (config, combined) =>
      (combined.roll source config.explosions session.state).1.flatMap RolledTerm.asked
    | .error _ => []
  | .rollDie sides => [sides]
  | .execute explosions formula =>
    (formula.roll source explosions session.state).1.flatMap RolledTerm.asked
  | _ => []

/-- The faces that a step draws, in order. -/
def block (session : Session σ) (step : Step) : List UInt32 :=
  (source.draw (session.asked source step) session.state).1

/-- The blocks of steps taken one after the other. -/
def blocks (session : Session σ) : List Step → List (List UInt32)
  | [] => []
  | step :: rest => session.block source step :: blocks (session.run source step).2 rest

/-- The faces that an answer shows; none for an error. -/
def Answer.faces? : Answer → Option (List UInt32)
  | .outcome o => some (o.rolledTerms.flatMap RolledTerm.faces)
  | .failed _ => none
  | .face shown => some [shown]
  | .rolled terms => some (terms.flatMap RolledTerm.faces)
  | .config _ | .request _ => some []

/-- The answer to a request shows the faces of its roll, or it is an error. -/
theorem Answer.faces?_ofRolled {config : Config} {request : Request} {f : Formula}
    {rolled : List RolledTerm} {shown : List UInt32}
    (h : (Answer.ofResult (Outcome.ofRolled config request f rolled)).faces? = some shown) :
    rolled.flatMap RolledTerm.faces = shown := by
  rw [Outcome.ofRolled_eq_map] at h
  cases he : Evaluation.of config rolled 0 with
  | error e =>
    rw [he] at h
    cases h
  | ok evaluation =>
    rw [he] at h
    exact Option.some.inj h

/-- **A step draws its block**: the state after it is the one after these draws, and an answer that
is no error shows them. -/
theorem run_draw (session : Session σ) (step : Step) :
    source.draw (session.asked source step) session.state =
        (session.block source step, (session.run source step).2.state) ∧
      ∀ shown, (session.run source step).1.faces? = some shown →
        session.block source step = shown := by
  cases step with
  | resolve =>
    rw [run_resolve, block, asked]
    cases hp : prepare session.config session.request with
    | error e =>
      rw [resolve_of_error source session.state hp]
      exact ⟨rfl, nofun⟩
    | ok prepared =>
      obtain ⟨C, f⟩ := prepared
      have hdraw := rollTerms_draw source C.explosions f.terms session.state
      rw [resolve_of_ok source session.state hp]
      dsimp only [Formula.roll]
      rw [hdraw]
      exact ⟨rfl, fun shown => Answer.faces?_ofRolled⟩
  | rollDie sides => exact ⟨rfl, fun shown => Option.some.inj⟩
  | execute explosions formula =>
    have hdraw := rollTerms_draw source explosions formula.terms session.state
    rw [block, asked]
    dsimp only [Formula.roll]
    rw [hdraw]
    exact ⟨rfl, fun shown => Option.some.inj⟩
  -- the other steps draw nothing
  | _ => exact ⟨rfl, fun shown => Option.some.inj⟩

theorem runAll_cons (session : Session σ) (step : Step) (rest : List Step) :
    session.runAll source (step :: rest) =
      ((session.run source step).1 :: ((session.run source step).2.runAll source rest).1,
        ((session.run source step).2.runAll source rest).2) := rfl

/-- The blocks of steps taken in two parts. -/
theorem blocks_append (session : Session σ) (first second : List Step) :
    session.blocks source (first ++ second) =
      session.blocks source first ++ (session.runAll source first).2.blocks source second := by
  induction first generalizing session with
  | nil => rfl
  | cons step rest ih => rw [List.cons_append, blocks, ih, blocks, runAll_cons, List.cons_append]

theorem length_blocks (session : Session σ) (steps : List Step) :
    (session.blocks source steps).length = steps.length := by
  induction steps generalizing session with
  | nil => rfl
  | cons step rest ih => rw [blocks, List.length_cons, ih, List.length_cons]

end Blocks

/-! ## Sessions on a script -/

/-- What a step draws from a script when `n` dice have been drawn before: the faces of `block`. -/
structure DrawsAt (faces : List UInt32) (n : Nat) (session : Session Script) (step : Step)
    (block : List UInt32) : Prop where
  /-- the step starts where the steps before it stopped -/
  start : session.state = ⟨faces, n⟩
  /-- there is one face for each die that the step asks for -/
  length : block.length = (session.asked Script.source step).length
  /-- each is the face of the next place, brought into the range of its die -/
  drawn : ∀ i sides, (session.asked Script.source step)[i]? = some sides →
    ∃ face, block[i]? = some face ∧
      face.toNat = max 1 (min (Script.faceAt faces (n + i)).toNat (max 1 sides.toNat))
  /-- an answer that is no error shows these faces, in order -/
  shown : ∀ shown, (session.run Script.source step).1.faces? = some shown → block = shown
  /-- the next step starts behind them -/
  next : (session.run Script.source step).2.state = ⟨faces, n + block.length⟩

/-- A step draws its block from the place that the script has reached. -/
theorem drawsAt (session : Session Script) (step : Step) :
    session.DrawsAt session.state.faces session.state.consumed step
      (session.block Script.source step) := by
  obtain ⟨hdraw, hshown⟩ := session.run_draw Script.source step
  rw [Script.draw_eq, Prod.mk.injEq] at hdraw
  obtain ⟨hblock, hstate⟩ := hdraw
  have hlength : (session.block Script.source step).length =
      (session.asked Script.source step).length := by
    rw [← hblock, List.length_mapIdx]
  refine ⟨rfl, hlength, ?_, hshown, ?_⟩
  · intro i sides hi
    refine ⟨_, ?_, toNat_nearestFace _ sides⟩
    rw [← hblock, List.getElem?_mapIdx, hi, Option.map_some]
  · rw [← hstate, hlength]

/-- **Steps move a script on by the dice they draw**: the faces stay, and the place is further by
the lengths of all blocks. -/
theorem state_runAll (session : Session Script) (steps : List Step) :
    (session.runAll Script.source steps).2.state =
      ⟨session.state.faces, session.state.consumed +
        ((session.blocks Script.source steps).map List.length).sum⟩ := by
  induction steps generalizing session with
  | nil => rfl
  | cons step rest ih =>
    rw [runAll_cons, ih, (session.drawsAt step).next, blocks, List.map_cons, List.sum_cons,
      Nat.add_assoc]

/-- **All steps of a session draw from one stream.** Every step draws a block of faces from the
place where the steps before it stopped, and a step that succeeds shows exactly these; at the end as
many dice have been drawn as all blocks are long. What comes after a session depends on it only
through the place that the replay of the script has reached: sessions that have reached the same
place are followed by the same answers. -/
theorem shared_stream (session : Session Script) (steps : List Step) :
    let faces := session.state.faces
    let drawn (steps : List Step) :=
      session.state.consumed + ((session.blocks Script.source steps).map List.length).sum
    let reached (steps : List Step) := (session.runAll Script.source steps).2
    (reached steps).state = ⟨faces, drawn steps⟩ ∧
    (∀ before step after, steps = before ++ step :: after →
      ∃ block, (session.blocks Script.source steps)[before.length]? = some block ∧
        (reached before).DrawsAt faces (drawn before) step block) ∧
    ∀ (other : Session Script) (history : List Step), other.state.faces = faces →
      let reached' := (other.runAll Script.source history).2
      (faces ≠ [] → (reached steps).state.consumed % faces.length =
        reached'.state.consumed % faces.length) →
      ∀ config request later,
        ((Session.mk config request (reached steps).state).runAll Script.source later).1 =
          ((Session.mk config request reached'.state).runAll Script.source later).1 := by
  intro faces drawn reached
  refine ⟨session.state_runAll steps, ?_, ?_⟩
  · rintro before step after rfl
    refine ⟨(reached before).block Script.source step, ?_, ?_⟩
    · rw [blocks_append, List.getElem?_append_right (Nat.le_of_eq (length_blocks _ _ before)),
        length_blocks, Nat.sub_self, blocks]
      rfl
    · have hdraws := (reached before).drawsAt step
      rwa [session.state_runAll before] at hdraws
  · intro other history hfaces reached' hplace config request later
    have hstate : (reached steps).state.faces = faces := by rw [session.state_runAll steps]
    have hstate' : reached'.state.faces = faces := by rw [other.state_runAll history, hfaces]
    have hsame : (reached steps).state.SamePlace reached'.state :=
      ⟨hstate.trans hstate'.symm, by rwa [hstate]⟩
    have hrelated : Related Script.SamePlace (Session.mk config request (reached steps).state)
        (Session.mk config request reached'.state) := ⟨rfl, rfl, hsame⟩
    exact (runAll_alike Script.lockstep_samePlace hrelated later).1

/-- A pool of subtracted dice fails after two draws, and the die after it has the third face. The
script of three faces is then at its start again, so that what follows is as in a new session. -/
theorem shared_stream_pool :
    let config : Config := .pool "5-2d6" 8
    let request : Request := ⟨none, [], none, none⟩
    let session : Session Script := ⟨config, request, ⟨[4, 2, 9], 0⟩⟩
    let steps : List Step := [.resolve, .rollDie 6]
    let reached := (session.runAll Script.source steps).2
    session.blocks Script.source steps = [[4, 2], [6]] ∧
      (session.run Script.source .resolve).1.faces? = none ∧
      reached.state = ⟨[4, 2, 9], 3⟩ ∧
      session.DrawsAt [4, 2, 9] 0 .resolve [4, 2] ∧
      ((Session.mk config request reached.state).runAll Script.source steps).1 =
        (session.runAll Script.source steps).1 := by
  intro config request session steps reached
  have hblocks : session.blocks Script.source steps = [[4, 2], [6]] := by decide
  obtain ⟨hstate, hdraws, hfollow⟩ := session.shared_stream steps
  have hreached : reached.state = ⟨[4, 2, 9], 3⟩ := by
    refine hstate.trans ?_
    dsimp only
    rw [hblocks]
    rfl
  obtain ⟨block, hblock, hfirst⟩ := hdraws [] .resolve [.rollDie 6] rfl
  obtain rfl : [4, 2] = block := by
    rw [hblocks] at hblock
    exact Option.some.inj hblock
  have hplace : reached.state.consumed % 3 = 0 :=
    congrArg (fun script : Script => script.consumed % 3) hreached
  exact ⟨hblocks, by decide, hreached, hfirst,
    hfollow session [] rfl (fun _ => hplace) config request steps⟩

end Session

end Tabletop
