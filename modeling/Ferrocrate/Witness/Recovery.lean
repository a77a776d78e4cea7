import Ferrocrate.Witness.Record

/-! Recovery recipes of `witness/recovery.rs`: which cleanup an action admits, the
durable 101-byte form, and the evidence a live-state verifier hands back. -/
namespace Ferrocrate.Witness
open Lib Lib.Reader

abbrev OperationId := Id

inductive RecoveryRecipeError where
  | invalidInverse
  | invalidTruthStrategy

def recoveryRecipeSchemaVersion : UInt8 := 2

inductive RecoveryTruthStrategy where
  | containerAbsent | executionObserved | containerRunning | containerPaused | restartObserved
  | containerPresent | inversePrecondition
deriving DecidableEq

def RecoveryTruthStrategy.code : RecoveryTruthStrategy → UInt8
  | .containerAbsent => 1 | .executionObserved => 2 | .containerRunning => 3
  | .containerPaused => 4 | .restartObserved => 5 | .containerPresent => 6
  | .inversePrecondition => 7

def RecoveryTruthStrategy.forContainerAction : WitnessAction → Option RecoveryTruthStrategy
  | .containerCreate | .containerRun => some .containerAbsent
  | .containerExec => some .executionObserved
  | .containerPause | .containerStop | .containerKill => some .containerRunning
  | .containerResume => some .containerPaused
  | .containerRestart => some .restartObserved
  | .containerStart => some .restartObserved
  | .containerDelete => some .containerPresent
  | .containerArchiveWrite => some .containerPresent
  | .containerUpdate => some .containerPresent
  | _ => none

def RecoveryTruthStrategy.expected (originalAction : WitnessAction) : RecoveryTruthStrategy :=
  (forContainerAction originalAction).getD .inversePrecondition

def inverseOf : WitnessAction → Option (WitnessResourceKind × WitnessAction)
  | .containerCreate | .containerRun | .containerExec | .containerPause | .containerResume
  | .containerStop | .containerKill | .containerRestart | .containerStart | .containerDelete
  | .containerUpdate | .containerArchiveWrite => some (.container, .containerDelete)
  | .imagePull | .imageDelete | .imageBuild | .imageTag | .imageReferenceWrite =>
    some (.image, .imageDelete)
  | .volumeCreate | .volumeDelete | .volumeRestore => some (.volume, .volumeDelete)
  | .volumeBackup => some (.volume, .volumeBackup)
  | .volumeMount => some (.volume, .volumeUnmount)
  | .networkCreate | .networkDelete => some (.network, .networkDelete)
  | .networkAttach | .networkDetach => some (.network, .networkDetach)
  | .rootlessMapping => some (.rootlessMapping, .rootlessMapping)
  | .checkpointPublish => some (.administrative, .checkpointRecover)
  | .checkpointRecover => some (.administrative, .checkpointRecover)
  | .keyRotate => some (.administrative, .keyRotate)
  | .policyReload => some (.administrative, .policyReload)
  | .policyRollback => some (.administrative, .policyRollback)
  | .volumeUnmount | .deviceUse | .containerRename => none

structure RecoveryRecipe where
  originalAction : WitnessAction
  resourceKind : WitnessResourceKind
  action : WitnessAction
  preconditionDigest : Digest
  resourceGeneration : UInt64
  truthStrategy : RecoveryTruthStrategy
  observationDigest : Digest
  observationHandle : Id
  inverse : inverseOf originalAction = some (resourceKind, action)
  strategy : truthStrategy = .expected originalAction
deriving DecidableEq

namespace RecoveryRecipe

def forOriginalWithObservation (originalAction : WitnessAction) (resourceKind : WitnessResourceKind)
    (action : WitnessAction) (preconditionDigest : Digest) (resourceGeneration : UInt64)
    (truthStrategy : RecoveryTruthStrategy) (observationDigest : Digest) (observationHandle : Id) :
    Except RecoveryRecipeError RecoveryRecipe :=
  if hi : inverseOf originalAction = some (resourceKind, action) then
    if hs : truthStrategy = .expected originalAction then
      .ok ⟨originalAction, resourceKind, action, preconditionDigest, resourceGeneration,
        truthStrategy, observationDigest, observationHandle, hi, hs⟩
    else .error .invalidTruthStrategy
  else .error .invalidInverse

def encode (recipe : RecoveryRecipe) (generation : UInt64) : Bytes :=
  [recoveryRecipeSchemaVersion] ++ (u64Be generation ++ ([recipe.originalAction.code]
  ++ ([recipe.resourceKind.code] ++ ([recipe.action.code] ++ ([recipe.truthStrategy.code]
  ++ (recipe.observationDigest.val ++ (recipe.observationHandle.val
  ++ (recipe.preconditionDigest.val ++ u64Be recipe.resourceGeneration))))))))

def truthStrategyFrom : UInt8 → Option RecoveryTruthStrategy
  | 1 => some .containerAbsent | 2 => some .executionObserved | 3 => some .containerRunning
  | 4 => some .containerPaused | 5 => some .restartObserved | 6 => some .containerPresent
  | 7 => some .inversePrecondition
  | _ => none

def actionFrom : UInt8 → Option WitnessAction
  | 1 => some .containerCreate | 2 => some .containerRun | 3 => some .containerExec
  | 4 => some .containerPause | 5 => some .containerResume | 6 => some .containerStop
  | 7 => some .containerKill | 8 => some .containerRestart | 9 => some .containerDelete
  | 10 => some .imagePull | 11 => some .imageDelete | 12 => some .volumeCreate
  | 13 => some .volumeDelete | 14 => some .volumeMount | 16 => some .networkCreate
  | 17 => some .networkDelete | 18 => some .networkAttach | 21 => some .policyReload
  | 22 => some .policyRollback | 23 => some .checkpointPublish | 24 => some .imageBuild
  | 25 => some .imageTag | 26 => some .imageReferenceWrite | 27 => some .checkpointRecover
  | 28 => some .keyRotate | 29 => some .rootlessMapping | 30 => some .containerRename
  | 32 => some .containerArchiveWrite | 33 => some .containerUpdate | 34 => some .volumeBackup
  | 35 => some .volumeRestore
  | _ => none

def resourceKindFrom : UInt8 → Option WitnessResourceKind
  | 1 => some .container | 2 => some .image | 3 => some .volume | 4 => some .network
  | 7 => some .administrative | 8 => some .rootlessMapping
  | _ => none

def cleanupFrom : UInt8 → Option WitnessAction
  | 9 => some .containerDelete | 11 => some .imageDelete | 13 => some .volumeDelete
  | 15 => some .volumeUnmount | 17 => some .networkDelete | 19 => some .networkDetach
  | 21 => some .policyReload | 22 => some .policyRollback | 27 => some .checkpointRecover
  | 28 => some .keyRotate | 29 => some .rootlessMapping | 34 => some .volumeBackup
  | _ => none

def fields : Reader Unit (UInt8 × UInt64 × UInt8 × UInt8 × UInt8 × UInt8 × Digest × Id × Digest
    × UInt64) := do
  let version ← Reader.u8 ()
  let generation ← Reader.u64 ()
  let originalAction ← Reader.u8 ()
  let resourceKind ← Reader.u8 ()
  let action ← Reader.u8 ()
  let truthStrategy ← Reader.u8 ()
  let observationDigest ← Reader.fixed () 32
  let observationHandle ← Reader.fixed () 16
  let preconditionDigest ← Reader.fixed () 32
  let resourceGeneration ← Reader.u64 ()
  pure (version, generation, originalAction, resourceKind, action, truthStrategy,
    observationDigest, observationHandle, preconditionDigest, resourceGeneration)

def decode (bytes : Bytes) : Option (UInt64 × RecoveryRecipe) :=
  if bytes.length ≠ 101 then none
  else
    match fields bytes with
    | .error _ => none
    | .ok ((version, generation, originalAction, resourceKind, action, truthStrategy,
        observationDigest, observationHandle, preconditionDigest, resourceGeneration), _) => do
      if version ≠ recoveryRecipeSchemaVersion then none
      let originalAction ← actionFrom originalAction
      let resourceKind ← resourceKindFrom resourceKind
      let action ← cleanupFrom action
      let truthStrategy ← truthStrategyFrom truthStrategy
      let recipe ← (forOriginalWithObservation originalAction resourceKind action
        preconditionDigest resourceGeneration truthStrategy observationDigest
        observationHandle).toOption
      some (generation, recipe)

theorem length_encode (recipe : RecoveryRecipe) (generation : UInt64) :
    (recipe.encode generation).length = 101 := by
  simp [encode]

theorem forOriginalWithObservation_self (r : RecoveryRecipe) :
    forOriginalWithObservation r.originalAction r.resourceKind r.action r.preconditionDigest
      r.resourceGeneration r.truthStrategy r.observationDigest r.observationHandle = .ok r := by
  rw [forOriginalWithObservation, dif_pos r.inverse, dif_pos r.strategy]

theorem fields_encode (r : RecoveryRecipe) (generation : UInt64) :
    fields (r.encode generation) = .ok ((recoveryRecipeSchemaVersion, generation,
      r.originalAction.code, r.resourceKind.code, r.action.code, r.truthStrategy.code,
      r.observationDigest, r.observationHandle, r.preconditionDigest, r.resourceGeneration), []) := by
  have hlast := Reader.u64_reads () r.resourceGeneration []
  rw [List.append_nil] at hlast
  simp only [fields, encode]
  simp only [bind_of_ok (Reader.u8_reads () _ _), bind_of_ok (Reader.u64_reads () _ _),
    bind_of_ok (Reader.fixed_reads () _ _ _), bind_of_ok hlast]
  rfl

theorem truthStrategyFrom_code (x : RecoveryTruthStrategy) : truthStrategyFrom x.code = some x := by
  cases x <;> rfl

theorem inverse_from_code {originalAction action : WitnessAction} {kind : WitnessResourceKind}
    (h : inverseOf originalAction = some (kind, action)) :
    resourceKindFrom kind.code = some kind ∧ cleanupFrom action.code = some action := by
  cases originalAction <;> cases h <;> exact ⟨rfl, rfl⟩

theorem actionFrom_code {originalAction : WitnessAction}
    (h : (inverseOf originalAction).isSome = true) :
    actionFrom originalAction.code =
      if originalAction = .networkDetach ∨ originalAction = .containerStart then none
      else some originalAction := by
  cases originalAction <;> first | rfl | cases h

theorem decode_encode (r : RecoveryRecipe) (generation : UInt64) :
    decode (r.encode generation) =
      if r.originalAction = .networkDetach ∨ r.originalAction = .containerStart then none
      else some (generation, r) := by
  have hl := length_encode r generation
  have hi : (inverseOf r.originalAction).isSome = true := by rw [r.inverse]; rfl
  obtain ⟨hk, hc⟩ := inverse_from_code r.inverse
  simp only [decode, hl, fields_encode, actionFrom_code hi, hk, hc, truthStrategyFrom_code, ne_eq,
    not_true_eq_false, if_false]
  split
  · rfl
  · simp [forOriginalWithObservation_self, Except.toOption]

end RecoveryRecipe

structure PendingOperation where
  operationId : OperationId
  executionGeneration : UInt64
  recipe : RecoveryRecipe
deriving DecidableEq

structure RecoveryEvidence where
  operationId : OperationId
  executionGeneration : UInt64
  originalAction : WitnessAction
  resourceKind : WitnessResourceKind
  resourceGeneration : UInt64
  truthStrategy : RecoveryTruthStrategy
  observationHandle : Id
  observationDigest : Digest
  recovered : Bool

def RecoveryEvidence.verified (pending : PendingOperation) (observationDigest : Digest)
    (recovered : Bool) : RecoveryEvidence :=
  ⟨pending.operationId, pending.executionGeneration, pending.recipe.originalAction,
    pending.recipe.resourceKind, pending.recipe.resourceGeneration, pending.recipe.truthStrategy,
    pending.recipe.observationHandle, observationDigest, recovered⟩

def plainRecipe : RecoveryRecipe where
  originalAction := .containerCreate
  resourceKind := .container
  action := .containerDelete
  preconditionDigest := .zero 32
  resourceGeneration := 1
  truthStrategy := .containerAbsent
  observationDigest := .zero 32
  observationHandle := .zero 16
  inverse := rfl
  strategy := rfl

end Ferrocrate.Witness
