import Tabletop.CommandLine.Run
import Tabletop.Proofs.Outcome
import Tabletop.Proofs.Settings.Load

/-!
# What the program prints

The program answers as `resolve` does under the settings with the options over them, once the
settings themselves have passed: these are checked when they are loaded, before any option counts.

* `resolve_of_no_dice` — without dice, every source gives the same outcome.
* `CommandLine.run_agrees` — the status and the texts of a run.
* `CommandLine.run_refuses_settings` — settings that an option would have mended.
-/

namespace Tabletop

/-! ## Rolls without dice -/

section NoDice

variable {σ τ : Type} (source : DieSource σ) (other : DieSource τ)

theorem rollTerms_of_no_dice (explosions : Explosions) {ts : List Term}
    (h : ∀ t ∈ ts, t.isDice = false) (s : σ) (s' : τ) :
    (rollTerms source explosions ts s).1 = (rollTerms other explosions ts s').1 := by
  induction ts generalizing s s' with
  | nil => rfl
  | cons t ts ih =>
    obtain ⟨ht, hts⟩ := List.forall_mem_cons.mp h
    cases hkind : t.kind with
    | constant value =>
      rw [rollTerms_cons, rollTerms_cons, rollTerm_of_constant source explosions hkind,
        rollTerm_of_constant other explosions hkind]
      exact congrArg _ (ih hts s s')
    | dice count sides =>
      rw [Term.isDice, hkind] at ht
      cases ht

/-- An outcome without dice is that of every source. -/
theorem resolve_of_no_dice {config : Config} {request : Request} {s : σ} {outcome : Outcome}
    (h : (resolve source config request s).1 = .ok outcome)
    (hno : ∀ t ∈ outcome.rolledTerms, t.term.isDice = false) (s' : τ) :
    (resolve other config request s').1 = .ok outcome := by
  cases hp : prepare config request with
  | error e =>
    rw [resolve_of_error source s hp] at h
    cases h
  | ok prepared =>
    obtain ⟨C, f⟩ := prepared
    rw [resolve_of_ok source s hp] at h
    have hrolled : outcome.rolledTerms = (f.roll source C.explosions s).1 := by
      rw [Outcome.ofRolled_eq_map] at h
      obtain ⟨evaluation, -, rfl⟩ := exists_of_map_eq_ok h
      rfl
    have hterms : ∀ t ∈ f.terms, t.isDice = false := by
      rw [← f.map_term_roll source C.explosions s, List.forall_mem_map, ← hrolled]
      exact hno
    rw [resolve_of_ok other s' hp, Formula.roll,
      rollTerms_of_no_dice other source C.explosions hterms s' s]
    exact h

end NoDice

namespace CommandLine

/-! ## Runs -/

theorem status_report (a : Arguments) (outcome : Outcome) : (report a outcome).status = 0 := by
  unfold report
  split <;> rfl

/-- A report, in full. -/
theorem report_eq (a : Arguments) (outcome : Outcome) : report a outcome =
    if a.json then ⟨0, (Json.of outcome).pretty ++ "\n", ""⟩
    else ⟨0, outcome.description ++ "\n",
      String.join (outcome.warnings.map fun w => "warning: " ++ w.message ++ "\n")⟩ := by
  rw [report, unlines, List.map_map]
  rfl

section Roll

variable {dice : SeededDice} {settings : Settings} {a : Arguments} {fresh : UInt64}

theorem rollWith_of_ok {outcome : Outcome}
    (h : (resolve dice.source (effective settings.mechanic a) (request a)
      (dice.seeded (seed settings a fresh))).1 = .ok outcome) :
    rollWith dice settings a fresh = report a outcome := by
  rw [rollWith, h]

theorem rollWith_of_error {e : RollError}
    (h : (resolve dice.source (effective settings.mechanic a) (request a)
      (dice.seeded (seed settings a fresh))).1 = .error e) :
    rollWith dice settings a fresh = failure e.message := by
  rw [rollWith, h]

end Roll

section Run

variable {files : String → Option String} {environment : Environment} {arguments : List String}
  {a : Arguments} {layer : Json} {settings : Settings}
  (harguments : Action.ofArguments arguments = .ok (.roll a))
  (hfile : Settings.fileLayer (settingsFile files a) = .ok layer)
  (hsettings : Settings.ofLayer? (Settings.merged layer environment) = some settings)

include harguments hfile hsettings

/-- Settings that cannot be used end a run, whatever the options are. -/
theorem run_of_invalid {e : ConfigError} (h : settings.mechanic.validate = .error e)
    (fresh : UInt64) (dice : SeededDice) :
    run files environment fresh arguments dice = failure e.message := by
  rw [run, harguments]
  dsimp only
  rw [(Settings.load_eq_config_iff hfile).mpr ⟨settings, hsettings, h⟩]
  rfl

/-- Settings that can be used are rolled with. -/
theorem run_of_valid (h : settings.mechanic.validate = .ok ()) (fresh : UInt64)
    (dice : SeededDice) :
    run files environment fresh arguments dice = rollWith dice settings a fresh := by
  rw [run, harguments]
  dsimp only
  rw [(Settings.load_eq_ok_iff hfile).mpr ⟨hsettings, h⟩]

end Run

/-- **The program answers as `resolve` does.** Let `settings` be what the built-in settings, the
file and the variables make together. When their mechanic cannot be used, the run ends with status
one and that error. Otherwise it ends with status zero exactly when the request of the arguments has
an outcome under the mechanic with the options over it, and with status one and the error of the
request when it has none. An outcome without dice is printed whatever the dice are: as JSON, or as
its line with the warnings among the errors. -/
theorem run_agrees {files : String → Option String} {environment : Environment}
    {arguments : List String} {a : Arguments} {layer : Json} {settings : Settings}
    (harguments : Action.ofArguments arguments = .ok (.roll a))
    (hfile : Settings.fileLayer (settingsFile files a) = .ok layer)
    (hsettings : Settings.ofLayer? (Settings.merged layer environment) = some settings)
    (fresh : UInt64) (dice : SeededDice) :
    let S := settings.mechanic
    let E : Config := { S with
      mechanic := a.mechanic.getD S.mechanic
      criteria := a.criteria.getD S.criteria
      exploding := S.exploding || a.explode || a.threshold.isSome
      explodeThreshold := a.threshold.or S.explodeThreshold }
    let Q : Request := {
      formula := a.formula
      modifiers := a.modifiers
      target := a.target
      difficulty := a.difficulty }
    let printed := run files environment fresh arguments dice
    (∀ e, S.validate = .error e → printed = ⟨1, "", "Error: " ++ e.message ++ "\n"⟩) ∧
    (S.validate = .ok () → ∀ {σ : Type} (source : DieSource σ) (s : σ),
      (printed.status = 0 ↔ ∃ outcome, (resolve source E Q s).1 = .ok outcome) ∧
      (∀ e, (resolve source E Q s).1 = .error e →
        printed = ⟨1, "", "Error: " ++ e.message ++ "\n"⟩) ∧
      ∀ outcome, (resolve source E Q s).1 = .ok outcome →
        (∀ t ∈ outcome.rolledTerms, t.term.isDice = false) →
        printed = if a.json then ⟨0, (Json.of outcome).pretty ++ "\n", ""⟩
          else ⟨0, outcome.description ++ "\n",
            String.join (outcome.warnings.map fun w => "warning: " ++ w.message ++ "\n")⟩) := by
  intro S E Q printed
  refine ⟨fun e h => run_of_invalid harguments hfile hsettings h fresh dice,
    fun h σ source s => ?_⟩
  have hprinted : printed = rollWith dice settings a fresh :=
    run_of_valid harguments hfile hsettings h fresh dice
  rcases resolve_cases E Q with ⟨e, herror⟩ | hok
  · have hfailure : printed = failure e.message :=
      hprinted.trans (rollWith_of_error (herror _ dice.source _))
    have hnone : ∀ outcome, (resolve source E Q s).1 ≠ .ok outcome := by
      intro outcome h
      rw [herror] at h
      cases h
    refine ⟨?_, fun e' he => ?_, fun outcome h => absurd h (hnone outcome)⟩
    · rw [hfailure]
      exact iff_of_false (by decide : (1 : UInt32) ≠ 0) (not_exists.mpr hnone)
    · rw [herror] at he
      cases he
      exact hfailure
  · obtain ⟨outcome, houtcome⟩ := hok _ dice.source (dice.seeded (seed settings a fresh))
    have hreport : printed = report a outcome := hprinted.trans (rollWith_of_ok houtcome)
    refine ⟨iff_of_true (hreport ▸ status_report a outcome) (hok _ source s), fun e he => ?_,
      fun other hother hno => ?_⟩
    · obtain ⟨_, hok⟩ := hok _ source s
      rw [hok] at he
      cases he
    · -- without dice those of the seed give what the source gives
      have hsame := resolve_of_no_dice source dice.source hother hno
        (dice.seeded (seed settings a fresh))
      obtain rfl : outcome = other := Except.ok.inj (houtcome.symm.trans hsame)
      exact hreport.trans (report_eq a outcome)

/-- One file has a difficulty with a target, the other a difficulty alone. A target among the
arguments stands over that of the first; a threshold of zero is refused with the request, and the
second file is refused although the arguments have a target. -/
theorem run_agrees_target :
    let files := fun name =>
      if name = "s.toml" then some "[mechanic]\ndifficulty = 2\ntarget = 9\n"
      else if name = "t.toml" then some "[mechanic]\ndifficulty = 2\n" else none
    run files [] 0 ["5", "--config", "s.toml", "--target", "3"] =
        ⟨0, "+5 = 5 vs 3 (✅)\n", ""⟩ ∧
      run files [] 0 ["5", "--config", "s.toml", "--threshold", "0"] =
        ⟨1, "", "Error: explosion threshold must be at least 1 (got 0)\n"⟩ ∧
      run files [] 0 ["5", "--config", "t.toml", "--target", "3"] =
        ⟨1, "", "Error: invalid target for sum mechanic: " ++
          "a difficulty was given but no target to compare against\n"⟩ := by
  intro files
  let first := "[mechanic]\ndifficulty = 2\ntarget = 9\n"
  let second := "[mechanic]\ndifficulty = 2\n"
  have hfirst : (Settings.fileLayer (.text first)).map
      (fun layer => Settings.ofLayer? (Settings.merged layer [])) =
        .ok (some { mechanic := { difficulty := some 2, target := some 9 } }) := by
    decide +kernel
  have hsecond : (Settings.fileLayer (.text second)).map
      (fun layer => Settings.ofLayer? (Settings.merged layer [])) =
        .ok (some { mechanic := { difficulty := some 2 } }) := by
    decide +kernel
  obtain ⟨layer, hlayer, hsettings⟩ := exists_of_map_eq_ok hfirst
  obtain ⟨layer', hlayer', hsettings'⟩ := exists_of_map_eq_ok hsecond
  refine ⟨?_, ?_, ?_⟩
  · let a : Arguments := { formula := some "5", config := some "s.toml", target := some 3 }
    have harguments : Action.ofArguments ["5", "--config", "s.toml", "--target", "3"] =
        .ok (.roll a) := by decide
    have hfile : settingsFile files a = .text first := by decide
    let outcome : Outcome := {
      formula := "5"
      total := 5
      success := some true
      rolledTerms := [⟨⟨.plus, .constant 5, .base⟩, .constant 5⟩]
      description := "+5 = 5 vs 3 (✅)"
      criticals := 0
      fumbles := 0
      warnings := [] }
    have houtcome : (resolve Script.source { difficulty := some 2, target := some 9 }
        { formula := some "5", target := some 3 } ⟨[], 0⟩).1 = .ok outcome := by decide +kernel
    have hagrees := run_agrees harguments (hfile.symm ▸ hlayer) hsettings 0 Generator.dice
    exact (hagrees.2 (by decide) Script.source ⟨[], 0⟩).2.2 outcome houtcome (by decide)
  · let a : Arguments := { formula := some "5", config := some "s.toml", threshold := some 0 }
    have harguments : Action.ofArguments ["5", "--config", "s.toml", "--threshold", "0"] =
        .ok (.roll a) := by decide
    have hfile : settingsFile files a = .text first := by decide
    have herror : (resolve Script.source
        { difficulty := some 2, target := some 9, exploding := true, explodeThreshold := some 0 }
        { formula := some "5" } ⟨[], 0⟩).1 = .error (.config (.invalidThreshold 0)) := by
      decide +kernel
    have hagrees := run_agrees harguments (hfile.symm ▸ hlayer) hsettings 0 Generator.dice
    exact (hagrees.2 (by decide) Script.source ⟨[], 0⟩).2.1 _ herror
  · let a : Arguments := { formula := some "5", config := some "t.toml", target := some 3 }
    have harguments : Action.ofArguments ["5", "--config", "t.toml", "--target", "3"] =
        .ok (.roll a) := by decide
    have hfile : settingsFile files a = .text second := by decide
    have hagrees := run_agrees harguments (hfile.symm ▸ hlayer') hsettings' 0 Generator.dice
    exact hagrees.1 (.invalidTarget .rollAndSum .missing) (by decide)

/-- The file gives a difficulty, and the target it is compared with is an option: the request has an
outcome, but the settings are refused. -/
theorem run_refuses_settings :
    let files := fun name => if name = "s.toml" then some "[mechanic]\ndifficulty = 2\n" else none
    let arguments := ["5", "--config", "s.toml", "--target", "3"]
    ∃ a layer settings, Action.ofArguments arguments = .ok (.roll a) ∧
      Settings.fileLayer (settingsFile files a) = .ok layer ∧
      Settings.ofLayer? (Settings.merged layer []) = some settings ∧
      ¬ ((run files [] 0 arguments).status = 0 ↔ ∃ outcome,
        (resolve Script.source (effective settings.mechanic a) (request a) ⟨[], 0⟩).1 =
          .ok outcome) := by
  intro files arguments
  let a : Arguments := { formula := some "5", config := some "s.toml", target := some 3 }
  have hlayer : (Settings.fileLayer (settingsFile files a)).map
      (fun layer => Settings.ofLayer? (Settings.merged layer [])) =
        .ok (some { mechanic := { difficulty := some 2 } }) := by decide +kernel
  obtain ⟨layer, hfile, hsettings⟩ := exists_of_map_eq_ok hlayer
  refine ⟨a, layer, _, by decide, hfile, hsettings, fun hagrees => ?_⟩
  have hstatus : (run files [] 0 arguments).status = 1 := by decide +kernel
  have hprepare : prepare { difficulty := some 2 } { formula := some "5", target := some 3 } =
      .ok ({ target := some 3, difficulty := some 2 }, ⟨[⟨.plus, .constant 5, .base⟩]⟩) := by
    decide +kernel
  have houtcome := hagrees.mpr ⟨_, congrArg Prod.fst (resolve_of_ok Script.source _ hprepare)⟩
  rw [hstatus] at houtcome
  cases houtcome

end CommandLine

end Tabletop
