import Ferrocrate.Lib.Loops
import Ferrocrate.Node.Executor
import Mathlib

/-! The lifecycle supervisor of a node (`node/supervisor.rs`): one pass of the convergence loop,
with the journal around every effect and the points where a pass can be cut. -/
namespace Ferrocrate.Node
open Lib
open Lib.Program

def restartBudget : Nat := 3
def endpointLeaseSeconds : Int64 := 300

inductive LifecycleFaultPoint where
  | afterIntentRecord | afterEffect | afterOutcomeRecord | afterCatalogUpdate
deriving DecidableEq

structure HealthTrack where
  consecutiveFailures : Nat
  restarts : Nat
deriving DecidableEq

structure SupervisorState where
  appliedRevision : UInt64
  health : OrdMap String HealthTrack

def SupervisorState.default : SupervisorState := ⟨0, .empty⟩

structure ReconcileReport where
  started : List String
  stopped : List String
  restarted : List String
  rolledBack : List String
  recoveredAmbiguous : Nat

structure UpdateAborted where
  service : String
  reason : String

structure UpdateOutcome where
  started : List String
  stopped : List String

inductive SupervisorError where
  | workload (error : WorkloadError)
  | journal (error : JournalError)
  | executor (detail : String)
  | unschedulable (error : Option RolloutError)
  | catalog (error : CatalogError)

inductive Halt where
  | error (error : SupervisorError)
  | crash (point : LifecycleFaultPoint)

inductive NodeEvent where
  | recorded (entry : JournalEntry)
  | journalFailed (error : JournalError)
  | mutated (intent : MutationIntent) (ok : Bool) (instances : OrdMap String InstanceView)

/-- The executor, the files and the memory of a supervisor, the faults that are armed, the appends
that will fail, and what has happened, the last event first. -/
structure NodeHost where
  executor : RecordingExecutor
  journal : LifecycleJournal
  workload : WorkloadStore
  stateFile : Option SupervisorState
  catalogFile : Option ServiceCatalog
  state : SupervisorState
  catalog : ServiceCatalog
  faults : List LifecycleFaultPoint
  appendFails : List Bool
  trace : List NodeEvent

structure NodeSizes where
  lineBytes : JournalEntry → Nat
  workloadBytes : DesiredWorkload → Nat
  snapshotBytes : ServiceCatalog → Nat
  admits : DesiredWorkload → Bool

abbrev Pass (α : Type) := Program Halt NodeHost α

def trip (point : LifecycleFaultPoint) : Pass Unit := do
  let h ← get
  runIf (point ∈ h.faults) do
    modify fun h => { h with faults := h.faults.filter (· ≠ point) }
    throw (.crash point)

def journalError {α : Type} (error : JournalError) : Pass α := do
  modify fun h => { h with trace := .journalFailed error :: h.trace }
  throw (.error (.journal error))

section Sizes
variable (sz : NodeSizes)

def appendEntry {α : Type} (append : LifecycleJournal → Bool → Except JournalError (α × LifecycleJournal)) :
    Pass α := do
  let h ← get
  modify fun h => { h with appendFails := h.appendFails.drop 1 }
  match append h.journal (h.appendFails.head?.getD false) with
  | .error error => journalError error
  | .ok (a, journal) =>
    modify fun h => { h with
      journal := journal
      trace := (journal.bind (·.getLast?)).elim h.trace fun entry => .recorded entry :: h.trace }
    return a

def appendIntent (action : MutationAction) (instanceId service : String) (targetRevision : UInt64)
    (now : Int64) : Pass UInt64 :=
  appendEntry fun journal fails => journal.appendIntent sz.lineBytes fails action instanceId service
    targetRevision now

def appendOutcome (seq : UInt64) (ok : Bool) (detail : String) (now : Int64) : Pass Unit :=
  appendEntry fun journal fails =>
    (journal.appendOutcome sz.lineBytes fails seq ok detail now).map fun journal => ((), journal)

def perform (intent : MutationIntent) : Pass (Except ExecutorError Unit) := do
  let h ← get
  let (result, executor) := h.executor.mutate intent
  modify fun h => { h with
    executor := executor
    trace := .mutated intent result.isOk executor.instances :: h.trace }
  return result

def applyMutation (action : MutationAction) (instanceId service image : String)
    (targetRevision : UInt64) (now : Int64) : Pass Unit := do
  let seq ← appendIntent sz action instanceId service targetRevision now
  trip .afterIntentRecord
  let result ← perform ⟨action, instanceId, service, image, targetRevision, now⟩
  trip .afterEffect
  match result with
  | .ok () =>
    appendOutcome sz seq true "applied" now
    trip .afterOutcomeRecord
  | .error error =>
    appendOutcome sz seq false error.display now
    trip .afterOutcomeRecord
    throw (.error (.executor error.display))

def observed : Pass (List InstanceView) := do
  let h ← get
  return h.executor.list

def recoverOne (running : List InstanceView) (now : Int64) (record : IntentRecord) : Pass Unit :=
  let present := running.any (·.instanceId = record.instanceId)
  let applied := match record.action with
    | .start => present
    | .stop => !present
  appendOutcome sz record.seq applied (if applied then "recovered: effect present"
    else "recovered: effect absent; reconcile reapplies") now

def recoverAmbiguous (now : Int64) : Pass Nat := do
  let h ← get
  match h.journal.load sz.lineBytes with
  | .error error => journalError error
  | .ok entries =>
    let ambiguous := LifecycleJournal.ambiguous entries
    ambiguous.forM (recoverOne sz h.executor.list now)
    return ambiguous.length

def rollback (spec : ServiceSpec) (oldRevision newRevision : UInt64) (now : Int64) : Pass Unit := do
  let views ← observed
  (views.filter fun view => view.revision = newRevision).forM fun view =>
    applyMutation sz .stop view.instanceId view.service view.image newRevision now
  let remainingOld := (views.filter fun view => view.revision = oldRevision).map (·.instanceId)
  (List.range spec.instances).forM fun index =>
    let id := instanceId spec.name oldRevision index
    runIf (id ∉ remainingOld) (applyMutation sz .start id spec.name spec.image oldRevision now)

def waitUntilHealthy (id : String) : Nat → Pass Bool
  | 0 => return false
  | attempts + 1 => do
    let views ← observed
    if views.any fun view => view.instanceId = id ∧ view.healthy then return true
    else waitUntilHealthy id attempts

def startStep (spec : ServiceSpec) (newRevision : UInt64) (now : Int64) :
    List String → Pass (Option String)
  | [] => return none
  | id :: ids => do
    match ← attempt (applyMutation sz .start id spec.name spec.image newRevision now) with
    | .error (.crash point) => throw (.crash point)
    | .error (.error (.executor detail)) =>
      return some ("start of " ++ id ++ " failed: " ++ detail)
    | .error (.error _) | .ok () => startStep spec newRevision now ids

def awaitStep (spec : ServiceSpec) : List String → Pass (Option String)
  | [] => return none
  | id :: ids => do
    if ← waitUntilHealthy id spec.update.healthAttempts then awaitStep spec ids
    else return some (id ++ " never became healthy")

def healthyCount (service : String) (views : List InstanceView) : Nat :=
  views.countP fun view => view.service = service ∧ view.healthy

def stopOne (spec : ServiceSpec) (newRevision : UInt64) (now : Int64) (id : String) :
    Pass (List String) := do
  let views ← observed
  let targetHealthy := views.any fun view => view.instanceId = id ∧ view.healthy
  if spec.update.revisionFloor ≤ healthyCount spec.name views - targetHealthy.toNat then
    applyMutation sz .stop id spec.name spec.image newRevision now
    return [id]
  else return []

def stopStep (spec : ServiceSpec) (newRevision : UInt64) (now : Int64) :
    List String → Pass (List String)
  | [] => return []
  | id :: ids => do
    let stopped ← stopOne sz spec newRevision now id
    let rest ← stopStep spec newRevision now ids
    return stopped ++ rest

def runSteps (spec : ServiceSpec) (newRevision : UInt64) (now : Int64) :
    List RolloutStep → Pass (Except String UpdateOutcome)
  | [] => return .ok ⟨[], []⟩
  | step :: steps => do
    match ← startStep sz spec newRevision now step.start with
    | some reason => return .error reason
    | none =>
      match ← awaitStep spec step.start with
      | some reason => return .error reason
      | none =>
        let stopped ← stopStep sz spec newRevision now step.stop
        match ← runSteps spec newRevision now steps with
        | .error reason => return .error reason
        | .ok outcome => return .ok ⟨step.start ++ outcome.started, stopped ++ outcome.stopped⟩

def oldRevisionOf (newRevision : UInt64) (stale : List InstanceView) : UInt64 :=
  (stale.map (·.revision)).max?.getD newRevision

def updatePlan (spec : ServiceSpec) (newRevision : UInt64) (stale : List InstanceView) :
    Except RolloutError (List RolloutStep) :=
  plan (stale.map (·.instanceId)) (spec.instanceIds newRevision)
    ⟨spec.update.maxSurge, spec.update.maxUnavailable⟩

def rollingUpdate (spec : ServiceSpec) (newRevision : UInt64) (stale : List InstanceView)
    (now : Int64) : Pass (Except UpdateAborted UpdateOutcome) := do
  let steps ← ofExcept (fun error => .error (.unschedulable (some error)))
    (updatePlan spec newRevision stale)
  match ← runSteps sz spec newRevision now steps with
  | .error reason =>
    rollback sz spec (oldRevisionOf newRevision stale) newRevision now
    return .error ⟨spec.name, reason⟩
  | .ok outcome => return .ok outcome

def updateStale (spec : ServiceSpec) (revision : UInt64) (stale : List InstanceView)
    (now : Int64) : Pass (Except UpdateAborted UpdateOutcome) :=
  if stale = [] then return .ok ⟨[], []⟩ else rollingUpdate sz spec revision stale now

def convergeCount (spec : ServiceSpec) (revision : UInt64) (now : Int64) :
    Pass (List String × List String) := do
  let views ← observed
  let running := (views.filter fun view =>
    view.service = spec.name ∧ view.revision = revision).map (·.instanceId)
  let target := spec.instanceIds revision
  let missing := (target.filter (· ∉ running)).insertionSort (· ≤ ·)
  let surplus := (running.filter (· ∉ target)).insertionSort (· ≤ ·)
  missing.forM fun id => applyMutation sz .start id spec.name spec.image revision now
  surplus.forM fun id => applyMutation sz .stop id spec.name spec.image revision now
  return (missing, surplus)

def reconcileService (views : List InstanceView) (revision : UInt64) (now : Int64)
    (report : ReconcileReport) (spec : ServiceSpec) : Pass ReconcileReport := do
  let stale := views.filter fun view => view.service = spec.name ∧ view.revision ≠ revision
  match ← updateStale sz spec revision stale now with
  | .error aborted => return { report with rolledBack := report.rolledBack ++ [aborted.service] }
  | .ok outcome =>
    let (started, stopped) ← convergeCount sz spec revision now
    return { report with
      started := report.started ++ outcome.started ++ started
      stopped := report.stopped ++ outcome.stopped ++ stopped }

def stopAll (now : Int64) (views : List InstanceView) : Pass Unit :=
  views.forM fun view =>
    applyMutation sz .stop view.instanceId view.service view.image view.revision now

def HealthTrack.look (track : HealthTrack) (retries : Nat) (healthy : Bool) :
    HealthTrack × Bool :=
  if healthy then ({ track with consecutiveFailures := 0 }, false)
  else if track.consecutiveFailures + 1 < retries ∨ restartBudget ≤ track.restarts then
    ({ track with consecutiveFailures := track.consecutiveFailures + 1 }, false)
  else (⟨0, track.restarts + 1⟩, true)

def lookAt (desired : DesiredWorkload) (acc : OrdMap String HealthTrack × List InstanceView)
    (view : InstanceView) : OrdMap String HealthTrack × List InstanceView :=
  match desired.services.find? (·.name = view.service) with
  | none => acc
  | some spec =>
    if view.revision ≠ desired.revision then acc
    else
      let looked := ((acc.1.get view.instanceId).getD ⟨0, 0⟩).look spec.health.retries view.healthy
      (acc.1.insert view.instanceId looked.1, if looked.2 then acc.2 ++ [view] else acc.2)

def enforceHealth (desired : DesiredWorkload) (now : Int64) : Pass (List String) := do
  let h ← get
  let views := h.executor.list
  let health := h.state.health.retain fun id _ => views.any (·.instanceId = id)
  let (health, restart) := views.foldl (lookAt desired) (health, [])
  modify fun h => { h with state := { h.state with health := health } }
  restart.forM fun view => do
    applyMutation sz .stop view.instanceId view.service view.image view.revision now
    applyMutation sz .start view.instanceId view.service view.image view.revision now
  return restart.map (·.instanceId)

def InstanceView.endpoint? (view : InstanceView) (now : Int64) : Option Endpoint :=
  if view.running ∧ view.healthy then
    view.address.map fun address =>
      ⟨view.instanceId, address, view.port, true, now + endpointLeaseSeconds⟩
  else none

def publishView (now : Int64) (c : ServiceCatalog) (view : InstanceView) :
    Except CatalogError ServiceCatalog :=
  match view.endpoint? now with
  | none => .ok c
  | some endpoint => c.publish view.service endpoint now

def buildCatalog (views : List InstanceView) (now : Int64) : Except CatalogError ServiceCatalog :=
  views.foldlM (publishView now) .empty

def publishCatalog (views : List InstanceView) (now : Int64) : Pass Unit := do
  let catalog ← ofExcept (fun error => .error (.catalog error)) (buildCatalog views now)
  rejectIf (maxSnapshotBytes < sz.snapshotBytes catalog) (.error (.catalog .oversized))
  modify fun h => { h with catalog := catalog, catalogFile := some catalog }
  trip .afterCatalogUpdate

def saveState (appliedRevision : UInt64) : Pass Unit :=
  modify fun h =>
    let state := { h.state with appliedRevision := appliedRevision }
    { h with state := state, stateFile := some state }

def convergeTo (desired : DesiredWorkload) (recovered : Nat) (now : Int64) :
    Pass ReconcileReport := do
  let views ← observed
  let report ← desired.services.foldlM (reconcileService sz views desired.revision now)
    ⟨[], [], [], [], recovered⟩
  let seen ← observed
  let orphans := seen.filter fun view => view.service ∉ desired.services.map (·.name)
  stopAll sz now orphans
  let restarted ← enforceHealth sz desired now
  let current ← observed
  publishCatalog sz current now
  let h ← get
  saveState (if report.rolledBack = [] then desired.revision else h.state.appliedRevision)
  return { report with
    stopped := report.stopped ++ orphans.map (·.instanceId)
    restarted := restarted }

def convergeToNothing (recovered : Nat) (now : Int64) : Pass ReconcileReport := do
  let views ← observed
  stopAll sz now views
  publishCatalog sz views now
  saveState 0
  return ⟨[], views.map (·.instanceId), [], [], recovered⟩

def reconcile (now : Int64) : Pass ReconcileReport := do
  let recovered ← recoverAmbiguous sz now
  let h ← get
  let desired ← ofExcept (fun error => .error (.workload error))
    (h.workload.load sz.workloadBytes)
  match desired with
  | none => convergeToNothing sz recovered now
  | some desired => convergeTo sz desired recovered now

def publishDesired (workload : DesiredWorkload) : Pass Unit := do
  ofExcept (fun error => .error (.workload error)) workload.validate
  rejectIf (sz.admits workload = false) (.error (.unschedulable none))
  let h ← get
  let store ← ofExcept (fun error => .error (.workload error))
    (h.workload.save sz.workloadBytes workload)
  modify fun h => { h with workload := store }

end Sizes

def NodeHost.reopen (h : NodeHost) (now : Int64) : NodeHost :=
  { h with
    state := h.stateFile.getD .default
    catalog := (h.catalogFile.map (·.fromSnapshot now)).getD .empty
    faults := [] }

end Ferrocrate.Node
