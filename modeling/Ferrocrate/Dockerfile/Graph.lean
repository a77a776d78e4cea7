import Ferrocrate.Dockerfile.Stage
import Ferrocrate.Lib.Layers
import Ferrocrate.Lib.Text
import Mathlib.Data.List.Dedup

/-! Scheduling the stages of a Dockerfile and looking up their roots (`dockerfile_build.rs`). -/
namespace Ferrocrate.Dockerfile
open Lib
variable {PathBuf : Type}

def stageNames (stages : List StageSpec) : Except DockerfileBuildError (OrdMap String Nat) :=
  stages.zipIdx.foldlM (fun names entry =>
    match entry.1.name with
    | none => .ok names
    | some name =>
      if names.contains name.toLower then
        .error (.invalid ("duplicate Dockerfile stage name: " ++ name))
      else .ok (names.insert name.toLower entry.2)) .empty

def sourceDependency (namedContexts : OrdMap String PathBuf) (names : OrdMap String Nat)
    (from_ : String) : Except DockerfileBuildError (Option Nat) :=
  if namedContexts.contains from_ then .ok none
  else
    match parseUsize from_ with
    | some dependency => .ok (some dependency)
    | none =>
      match names.get from_.toLower with
      | some dependency => .ok (some dependency)
      | none => .error (.invalid ("unknown COPY --from source: " ++ from_))

def StageSpec.sources (stage : StageSpec) : List String :=
  (stage.copyFrom ++ stage.copyFromAfterRun).map CopyFromSpec.from_

def stageDependencies (namedContexts : OrdMap String PathBuf) (names : OrdMap String Nat)
    (stage : StageSpec) (index : Nat) : Except DockerfileBuildError (List Nat) := do
  let targets ← stage.sources.mapM (sourceDependency namedContexts names)
  let dependencies := (targets.filterMap id ++ (names.get stage.base.toLower).toList).mergeSort.dedup
  match dependencies.find? fun dependency => dependency ≥ index with
  | some dependency =>
    throw (.invalid ("COPY --from stage " ++ toString dependency ++
      " must reference an earlier stage"))
  | none => pure dependencies

def buildStageDependencyGraph (stages : List StageSpec) (namedContexts : OrdMap String PathBuf) :
    Except DockerfileBuildError (List (List Nat)) := do
  let names ← stageNames stages
  stages.zipIdx.mapM fun entry => stageDependencies namedContexts names entry.1 entry.2

def dependenciesOf (graph : List (List Nat)) (index : Nat) : List Nat := graph[index]?.getD []

def readyStages (graph : List (List Nat)) (completed : List Nat) : List Nat :=
  (List.range graph.length).filter fun index =>
    !completed.contains index && (dependenciesOf graph index).all fun dependency =>
      dependency < graph.length && completed.contains dependency

def executionBatches (graph : List (List Nat)) :
    Nat → List (List Nat) → Option (Except DockerfileBuildError (List (List Nat)))
  | fuel, batches =>
    if (List.range graph.length).all batches.flatten.contains then some (.ok batches) else
    match fuel with
    | 0 => none
    | fuel + 1 =>
      let ready := readyStages graph batches.flatten
      if ready = [] then
        some (.error (.invalid "Dockerfile stage dependency graph contains a cycle"))
      else executionBatches graph fuel (batches ++ [ready])

def buildStageExecutionBatches (fuel : Nat) (graph : List (List Nat)) :
    Option (Except DockerfileBuildError (List (List Nat))) :=
  executionBatches graph fuel []

def resolveStageRoot (roots : List PathBuf) (names contexts : OrdMap String PathBuf)
    (from_ : String) : Option PathBuf :=
  match parseUsize from_ with
  | some idx => roots[idx]?
  | none => (names.get from_).or (contexts.get from_)

/-! ## Executing the stages -/

structure Places (contexts : OrdMap String PathBuf) where
  root : Nat → PathBuf
  root_injective : root.Injective
  unbuilt : PathBuf
  root_ne_unbuilt : ∀ index, root index ≠ unbuilt
  context_ne_root : ∀ name index, contexts.get name ≠ some (root index)
  context_ne_unbuilt : ∀ name, contexts.get name ≠ some unbuilt

structure BuildState (PathBuf : Type) where
  stageRoots : List (Option PathBuf)
  stageNames : OrdMap String PathBuf

def stageName (stages : List StageSpec) (index : Nat) : Option String :=
  stages[index]?.bind StageSpec.name

section
variable {contexts : OrdMap String PathBuf} (stages : List StageSpec) (places : Places contexts)

def BuildState.onResult (state : BuildState PathBuf) (idx : Nat) : BuildState PathBuf where
  stageRoots := state.stageRoots.set idx (some (places.root idx))
  stageNames :=
    match stageName stages idx with
    | some name => state.stageNames.insert name (places.root idx)
    | none => state.stageNames

def BuildState.after (done : List Nat) : BuildState PathBuf :=
  done.foldl (BuildState.onResult stages places) ⟨List.replicate stages.length none, .empty⟩

def BuildState.rootsSnapshot (state : BuildState PathBuf) : List PathBuf :=
  state.stageRoots.map fun root => root.getD places.unbuilt

end

end Ferrocrate.Dockerfile
