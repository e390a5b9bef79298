import Ficant.Market.Fact

namespace Ficant

open Lib

/-!
# Artifacts and signal sets

What a run publishes (`ficant-domain/src/research/artifact.rs`, `signal_set.rs`), and the inputs that
its run was made with (`ExperimentRun::new`).
-/

/-- `LineageRef::new` refuses a reference with neither a version nor a hash. -/
def LineageRef.Exact (reference : LineageRef) : Prop :=
  reference.version.isSome ∨ reference.contentHash.isSome

instance (reference : LineageRef) : Decidable reference.Exact := inferInstanceAs (Decidable (_ ∨ _))

/-- `LineageRef::new`. -/
def LineageRef.new (objectId : Ulid) (version : Option Version) (contentHash : Option ContentHash) :
    Except DomainErrorCode LineageRef :=
  if version = none ∧ contentHash = none then .error .brokenLineage
  else .ok ⟨objectId, version, contentHash⟩

/-- `LineageRef::versioned`. -/
def LineageRef.versioned (reference : VersionRef) : LineageRef :=
  ⟨reference.id, some reference.version, none⟩

/-! ### Artifacts -/

/-- `ArtifactKind`. -/
inductive ArtifactKind
  | generic | signalSet
  deriving DecidableEq, Repr

/-- `Artifact`. -/
structure Artifact where
  artifactId : Ulid
  owner : OwnerRef
  kind : ArtifactKind
  mediaType : String
  contentHash : ContentHash
  blobSize : ℕ
  lineage : List LineageRef
  media_proper : properName mediaType = true
  positive : 0 < blobSize
  fits : blobSize < 2 ^ 64
  traced : lineage ≠ []

instance : DecidableEq Artifact := fun a b =>
  decidable_of_iff
    (a.artifactId = b.artifactId ∧ a.owner = b.owner ∧ a.kind = b.kind ∧ a.mediaType = b.mediaType ∧
      a.contentHash = b.contentHash ∧ a.blobSize = b.blobSize ∧ a.lineage = b.lineage)
    (by cases a; cases b; simp)

/-- `Artifact::new`, on a 64-bit size. -/
def Artifact.new (artifactId : Ulid) (owner : OwnerRef) (kind : ArtifactKind) (mediaType : String)
    (contentHash : ContentHash) (blobSize : ℕ) (lineage : List LineageRef) :
    Except DomainErrorCode Artifact :=
  if h : properName mediaType = true ∧ 0 < blobSize ∧ blobSize < 2 ^ 64 then
    if hlineage : lineage ≠ [] then
      .ok ⟨artifactId, owner, kind, mediaType, contentHash, blobSize, lineage, h.1, h.2.1, h.2.2,
        hlineage⟩
    else .error .brokenLineage
  else .error .invalidValue

/-! ### Signal sets -/

/-- `SignalSetInput`. -/
structure SignalSetInput where
  signalSetId : Ulid
  owner : OwnerRef
  artifact : LineageRef
  experimentRunId : Ulid
  dataSnapshot : LineageRef
  universeSnapshot : LineageRef
  rulePacks : List VersionRef
  inputArtifacts : List LineageRef
  valid : EffectivePeriod
  deriving DecidableEq

/-- The checks of `SignalSet::new`. -/
def SignalSetInput.check (i : SignalSetInput) : Except DomainErrorCode Unit :=
  if i.artifact.objectId = i.signalSetId ∨ i.artifact.version.isSome ∨
      i.artifact.contentHash = none then .error .brokenLineage
  else if i.rulePacks = [] ∨ i.inputArtifacts = [] then .error .brokenLineage
  else .ok ()

/-- `SignalSet`; its lineage is a function of the other fields. -/
structure SignalSet where
  input : SignalSetInput
  valid : input.check = .ok ()
  deriving DecidableEq

namespace SignalSet

/-- `SignalSet::new`. -/
def new (input : SignalSetInput) : Except DomainErrorCode SignalSet :=
  match h : input.check with
  | .ok () => .ok ⟨input, h⟩
  | .error error => .error error

theorem contentHash_isSome (s : SignalSet) : s.input.artifact.contentHash.isSome := by
  have h := s.valid
  unfold SignalSetInput.check at h
  split at h
  · cases h
  · rename_i hartifact
    push Not at hartifact
    exact Option.isSome_iff_ne_none.mpr hartifact.2.2

/-- `SignalSet::content_hash`: that of its artifact. -/
def contentHash (s : SignalSet) : ContentHash := s.input.artifact.contentHash.get s.contentHash_isSome

end SignalSet

/-! ### Runs -/

/-- `ExperimentRunInput`. -/
structure ExperimentRunInput where
  experimentRunId : Ulid
  owner : OwnerRef
  dataSnapshot : LineageRef
  universeSnapshot : LineageRef
  rulePacks : List VersionRef
  runtimeImageDigest : ContentHash
  parametersHash : ContentHash
  seed : ℕ
  deriving DecidableEq

namespace ExperimentRun

/-- `ExperimentRun::new`. -/
def new (i : ExperimentRunInput) : Except DomainErrorCode ExperimentRun :=
  if i.rulePacks = [] then .error .brokenLineage
  else .ok
    { experimentRunId := i.experimentRunId
      owner := i.owner
      dataSnapshot := i.dataSnapshot
      universeSnapshot := i.universeSnapshot
      rulePacks := i.rulePacks
      runtimeImageDigest := i.runtimeImageDigest
      parametersHash := i.parametersHash
      seed := i.seed
      state := .created
      revision := 1
      lineage := [i.dataSnapshot, i.universeSnapshot] ++ i.rulePacks.map LineageRef.versioned }

/-- The runs that a constructor call with a 64-bit seed and transitions make. -/
inductive Built : ExperimentRun → Prop
  | new {input : ExperimentRunInput} {run : ExperimentRun} (hseed : input.seed < 2 ^ 64)
      (h : ExperimentRun.new input = .ok run) : Built run
  | transition {run next : ExperimentRun} {state : RunState} {revision : ℕ} (hrun : Built run)
      (h : run.transition state revision = .ok next) : Built next

/-- What holds of every run that was built: the lineage follows from the other fields, and the
    revision counts the changes of state. -/
structure WellFormed (run : ExperimentRun) : Prop where
  lineage_eq : run.lineage =
    [run.dataSnapshot, run.universeSnapshot] ++ run.rulePacks.map LineageRef.versioned
  ruled : run.rulePacks ≠ []
  seed_fits : run.seed < 2 ^ 64
  revision_eq : run.revision = match run.state with
    | .created => 1
    | .running => 2
    | _ => 3

theorem Built.wellFormed {run : ExperimentRun} (h : Built run) : run.WellFormed := by
  induction h with
  | new hseed h =>
    rw [ExperimentRun.new] at h
    split at h
    · cases h
    · rename_i hrules
      obtain rfl := Except.ok.inj h
      exact ⟨rfl, hrules, hseed, rfl⟩
  | @transition run out next revision _ h ih =>
    obtain ⟨hallowed, rfl⟩ := transition_eq_ok h
    refine ⟨ih.lineage_eq, ih.ruled, ih.seed_fits, ?_⟩
    have hrevision := ih.revision_eq
    -- the only ways to go are from created to running and from running to an end
    show run.revision + 1 = _
    rw [hrevision]
    cases hstate : run.state <;> cases next <;> simp_all [allowed]

end ExperimentRun

end Ficant
