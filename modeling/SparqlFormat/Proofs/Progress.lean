import Mathlib.Tactic.Common
import Mathlib.Tactic.Lemma
import SparqlFormat.Run.Progress

/-!
# What a run remembers is what its report says

Runs that remember their progress give the reports of runs that name the failing stage in place.
Each stage has one lemma on what it does to a memory, whatever that held before: `run_ofBytes` says
that the stages after the bytes leave the stage that failed, or the last one, and the URI as it
was. `stagedRun_eq` and `stagedLines_eq` follow; for lines, what is carried along is that no URI is
remembered, and nothing at all about the stage.
-/

namespace SparqlFormat

/-- The last stage that a run with this ending was in. -/
def Ending.lastStage (ending : Ending) : Stage :=
  ending.stage?.getD .reformat

variable {m : Type → Type} [Monad m]

/-! ## One step -/

namespace Staged

section Steps

variable {α β : Type} (progress : Progress)

lemma run_bind (x : Staged m α) (next : α → Staged m β) :
    (x >>= next).run.run progress = x.run.run progress >>= fun r =>
      match r.1 with
      | .ok a => (next a).run.run r.2
      | .error cause => pure (.error cause, r.2) := by
  rw [ExceptT.run_bind, StateT.run_bind]
  congr 1
  funext r
  cases r.1 <;> rfl

lemma run_ofExcept (result : Except Failure α) :
    (ofExcept result : Staged m α).run.run progress = pure (result, progress) := by
  cases result <;> simp [ofExcept]

variable [LawfulMonad m]

lemma run_liftM (x : m α) :
    (liftM x : Staged m α).run.run progress = (fun a => (.ok a, progress)) <$> x := by
  simp [liftM, monadLift, MonadLift.monadLift, ExceptT.lift]

lemma run_modify (f : Progress → Progress) :
    (modify f : Staged m Unit).run.run progress = pure (.ok (), f progress) := by
  have lifted : (modify f : Staged m Unit).run =
      Except.ok <$> (modify f : StateT Progress m Unit) := rfl
  rw [lifted]
  simp

lemma run_enter (stage : Stage) :
    (enter stage : Staged m Unit).run.run progress =
      pure (.ok (), { progress with stage := stage }) :=
  run_modify progress _

end Steps

/-! ## Stages -/

variable [LawfulMonad m] (formatter : Formatter m) (settings : Settings) (progress : Progress)

/-- The stages after the bytes leave the last stage behind, and the URI as it was. -/
theorem run_ofBytes (data : List UInt8) :
    (ofBytes formatter settings data).run.run progress =
      (fun ending => (ending.toExcept, ⟨ending.lastStage, progress.baseUri⟩)) <$>
        runBytes formatter settings data := by
  simp only [ofBytes, run_bind, run_enter, run_ofExcept, run_liftM, pure_bind]
  unfold runBytes
  cases decodeText data with
  | error failure => simp [Ending.toExcept, Ending.lastStage, Ending.stage?]
  | ok raw =>
    dsimp only
    cases decodeForm settings.decode raw with
    | error failure => simp [Ending.toExcept, Ending.lastStage, Ending.stage?]
    | ok text =>
      simp only [map_bind, bind_map_left]
      refine congrArg _ (funext fun result => ?_)
      cases result <;> simp [Except.mapError, Ending.toExcept, Ending.lastStage, Ending.stage?]

/-- All stages leave the last stage behind, and the URI that the report gives. -/
theorem run_ofArgument (access : Access m) (argument : Argument)
    (fresh : progress.baseUri = none) :
    (ofArgument access formatter settings argument).run.run progress =
      (fun report => (report.ending.toExcept, ⟨report.ending.lastStage, report.baseUri⟩)) <$>
        run access formatter settings argument := by
  simp only [ofArgument, run_bind, run_enter, run_liftM, pure_bind, bind_map_left, run, map_bind]
  refine congrArg _ (funext fun fetched => ?_)
  cases fetched with
  | error failure =>
    simp [run_ofExcept, Ending.toExcept, Ending.lastStage, Ending.stage?, fresh]
  | ok query => simp [run_ofExcept, run_modify, run_ofBytes]

end Staged

/-! ## Runs -/

section Runs

variable [LawfulMonad m] (formatter : Formatter m) (settings : Settings)

/-- A run is reported as it ended, if its last stage and its URI are remembered. -/
lemma Progress.report_lastStage (ending : Ending) (baseUri : Option (List Char)) :
    Progress.report ⟨ending.lastStage, baseUri⟩ baseUri ending.toExcept = ⟨ending, baseUri⟩ := by
  cases ending <;> rfl

/-- The report from memory is that of the run. -/
theorem stagedRun_eq (access : Access m) (argument : Argument) :
    stagedRun access formatter settings argument = run access formatter settings argument := by
  rw [stagedRun, Staged.run_ofArgument _ _ _ _ _ rfl, bind_map_left]
  simp only [Progress.report_lastStage]
  exact bind_pure _

/-- The text or the failure is that of the run. -/
theorem stagedRunOrFail_eq (access : Access m) (argument : Argument) :
    stagedRunOrFail access formatter settings argument =
      runOrFail access formatter settings argument := by
  rw [stagedRunOrFail, Staged.run_ofArgument _ _ _ _ _ rfl, bind_map_left]
  rfl

/-- Lines are reported as if each had a memory of its own: the only thing they rely on is that no
URI is remembered, and none of them leaves one. -/
theorem stagedLinesFrom_eq (number : Nat) {progress : Progress} (fresh : progress.baseUri = none)
    (lines : List (List UInt8)) :
    stagedLinesFrom formatter settings number progress lines =
      runLinesFrom formatter settings number lines := by
  induction lines generalizing number progress with
  | nil => rfl
  | cons line lines ih =>
    rw [stagedLinesFrom, runLinesFrom]
    split
    · exact ih (number + 1) fresh
    · rw [Staged.run_ofBytes, bind_map_left]
      refine congrArg _ (funext fun ending => ?_)
      -- the next line finds the stage that this one ended in
      dsimp only
      rw [fresh, Progress.report_lastStage, ih (number + 1) rfl]

theorem stagedLines_eq (lines : List (List UInt8)) :
    stagedLines formatter settings lines = runLines formatter settings lines :=
  stagedLinesFrom_eq formatter settings 1 rfl lines

end Runs

end SparqlFormat
