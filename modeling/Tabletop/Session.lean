import Tabletop.Outcome

/-!
# Sessions

A session holds one configuration, one request and one source of dice that all its rolls share.
Whoever holds the source holds the same one: a copy of the handle is no copy of the dice, so that
all handles are the one `state` here. A roll keeps the source locked from its first die to its last.
Rolls asked for at the same time therefore come one after the other, in some order, and are the
steps of one list in that order.

* `Session.Step` — what can be done: change the configuration or the request, or draw dice.
* `Session.Answer` — what a step answers with.
* `Session.run` — one step. A step that fails changes neither configuration nor request; dice it
  has drawn stay drawn.
* `Session.runAll` — steps one after the other.
-/

namespace Tabletop

/-- A configuration, a request and the state of a source of dice. -/
structure Session (σ : Type) where
  config : Config
  request : Request
  state : σ

namespace Session

/-- A step of a session. -/
inductive Step where
  /-- resolve the current request -/
  | resolve
  /-- roll one die of so many sides -/
  | rollDie (sides : UInt32)
  /-- roll a formula by itself -/
  | execute (explosions : Explosions) (formula : Formula)
  /-- replace the configuration -/
  | setConfig (config : Config)
  /-- set the configured target -/
  | configTarget (target : Option Amount)
  /-- set the configured difficulty -/
  | configDifficulty (difficulty : Option Amount)
  /-- let dice explode, from a threshold if one is given -/
  | configExplosion (threshold : Option UInt32)
  /-- replace the request -/
  | setRequest (request : Request)
  /-- add a modifier to the request -/
  | addModifier (modifier : Modifier)
  /-- set the target of the request -/
  | requestTarget (target : Amount)
  /-- set the difficulty of the request -/
  | requestDifficulty (difficulty : Amount)

/-- The answer to a step. -/
inductive Answer where
  | outcome (outcome : Outcome)
  | failed (error : RollError)
  | face (face : UInt32)
  | rolled (terms : List RolledTerm)
  | config (config : Config)
  | request (request : Request)

variable {σ : Type}

/-- The session with another configuration, which is the answer. -/
def withConfig (session : Session σ) (config : Config) : Answer × Session σ :=
  (.config config, { session with config := config })

/-- The session with another request, which is the answer. -/
def withRequest (session : Session σ) (request : Request) : Answer × Session σ :=
  (.request request, { session with request := request })

/-- Takes one step with dice from a source. -/
def run (source : DieSource σ) (session : Session σ) : Step → Answer × Session σ
  | .resolve =>
    match Tabletop.resolve source session.config session.request session.state with
    | (.ok outcome, state) => (.outcome outcome, { session with state := state })
    | (.error e, state) => (.failed e, { session with state := state })
  | .rollDie sides =>
    let (face, state) := source.roll session.state sides
    (.face face, { session with state := state })
  | .execute explosions formula =>
    let (terms, state) := formula.roll source explosions session.state
    (.rolled terms, { session with state := state })
  | .setConfig config => session.withConfig config
  | .configTarget target => session.withConfig { session.config with target := target }
  | .configDifficulty difficulty =>
    session.withConfig { session.config with difficulty := difficulty }
  | .configExplosion threshold => session.withConfig (session.config.withExplosion threshold)
  | .setRequest request => session.withRequest request
  | .addModifier modifier =>
    session.withRequest
      { session.request with modifiers := session.request.modifiers ++ [modifier] }
  | .requestTarget target => session.withRequest { session.request with target := some target }
  | .requestDifficulty difficulty =>
    session.withRequest { session.request with difficulty := some difficulty }

/-- Takes steps one after the other: the answers in order, and the session afterwards. -/
def runAll (source : DieSource σ) (session : Session σ) : List Step → List Answer × Session σ
  | [] => ([], session)
  | step :: rest =>
    let (answer, session) := session.run source step
    let (answers, session) := runAll source session rest
    (answer :: answers, session)

/-- Taking steps in two parts. -/
theorem runAll_append (source : DieSource σ) (session : Session σ) (first second : List Step) :
    session.runAll source (first ++ second) =
      let (answers, session) := session.runAll source first
      let (others, session) := session.runAll source second
      (answers ++ others, session) := by
  induction first generalizing session with
  | nil => rfl
  | cons step rest ih => simp [runAll, ih]

end Session

end Tabletop
