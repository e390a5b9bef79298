import Ficant.Primitives

namespace Ficant

/-!
# Experiment runs

The record of a run and its life cycle (`ficant-domain/src/research/experiment_run.rs`).
-/

/-- `RunState`. -/
inductive RunState
  | created | running | succeeded | failed | cancelled
  deriving DecidableEq, Repr

/-- `LineageRef`. -/
structure LineageRef where
  objectId : Ulid
  version : Option Version
  contentHash : Option ContentHash
  deriving DecidableEq

/-- `ExperimentRun`. -/
structure ExperimentRun where
  experimentRunId : Ulid
  owner : OwnerRef
  dataSnapshot : LineageRef
  universeSnapshot : LineageRef
  rulePacks : List VersionRef
  runtimeImageDigest : ContentHash
  parametersHash : ContentHash
  seed : ℕ
  state : RunState
  revision : ℕ
  lineage : List LineageRef
  deriving DecidableEq

namespace ExperimentRun

/-- The changes of state a run may make. -/
def allowed : RunState → RunState → Bool
  | .created, .running => true
  | .running, .succeeded | .running, .failed | .running, .cancelled => true
  | _, _ => false

/-- `ExperimentRun::transition`. -/
def transition (run : ExperimentRun) (next : RunState) (expectedRevision : ℕ) :
    Except DomainErrorCode ExperimentRun :=
  if expectedRevision ≠ run.revision then .error .versionConflict
  else if !allowed run.state next then .error .invalidStateTransition
  else if 2 ^ 64 ≤ run.revision + 1 then .error .versionConflict
  else .ok { run with state := next, revision := run.revision + 1 }

/-- A transition changes the state and the revision, and nothing else. -/
theorem transition_eq_ok {run out : ExperimentRun} {next : RunState} {expectedRevision : ℕ}
    (h : run.transition next expectedRevision = .ok out) :
    allowed run.state next = true ∧
      out = { run with state := next, revision := run.revision + 1 } := by
  unfold transition at h
  split at h
  · cases h
  split at h
  · cases h
  rename_i hallowed
  split at h
  · cases h
  · exact ⟨by simpa using hallowed, (Except.ok.inj h).symm⟩

end ExperimentRun

end Ficant
