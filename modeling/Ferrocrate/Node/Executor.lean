import Ferrocrate.Node.Journal
import Ferrocrate.Node.Workload

/-! The executor of a node (`node/executor.rs`): instances in memory, changed by mutations that are
signed and fresh. The executor has the supervisor's node id and key, so a mutation is refused only
for its age. The catalog of services (`service_discovery.rs`) is here too. -/
namespace Ferrocrate.Node
open Lib

structure MutationIntent where
  action : MutationAction
  instanceId : String
  service : String
  image : String
  targetRevision : UInt64
  issuedUnix : Int64

structure InstanceView where
  instanceId : String
  service : String
  revision : UInt64
  image : String
  running : Bool
  healthy : Bool
  address : Option String
  port : UInt16

inductive ExecutorError where
  | rejected (reason : String)
  | failed (reason : String)

def ExecutorError.display : ExecutorError → String
  | rejected reason => "mutation rejected: " ++ reason
  | failed reason => "mutation failed: " ++ reason

def maxMutationAgeSeconds : Int := 300

structure RecordingExecutor where
  instances : OrdMap String InstanceView
  unhealthy : List String
  failStartsFor : List String
  clock : Int64

namespace RecordingExecutor

def setUnhealthy (e : RecordingExecutor) (id : String) : RecordingExecutor :=
  { e with
    unhealthy := e.unhealthy ++ [id]
    instances := e.instances.modify id fun view => { view with healthy := false } }

def clearUnhealthy (e : RecordingExecutor) (id : String) : RecordingExecutor :=
  { e with
    unhealthy := e.unhealthy.filter (· ≠ id)
    instances := e.instances.modify id fun view => { view with healthy := true } }

def expired (e : RecordingExecutor) (intent : MutationIntent) : Bool :=
  maxMutationAgeSeconds < e.clock.toInt - intent.issuedUnix.toInt
    ∨ e.clock.toInt + maxMutationAgeSeconds < intent.issuedUnix.toInt

def started (e : RecordingExecutor) (intent : MutationIntent) : InstanceView where
  instanceId := intent.instanceId
  service := intent.service
  revision := intent.targetRevision
  image := intent.image
  running := true
  healthy := intent.instanceId ∉ e.unhealthy
  address := some "127.0.0.1"
  port := 8080

def mutate (e : RecordingExecutor) (intent : MutationIntent) :
    Except ExecutorError Unit × RecordingExecutor :=
  if e.expired intent then (.error (.rejected "mutation has expired"), e)
  else match intent.action with
    | .start =>
      if intent.instanceId ∈ e.failStartsFor then (.error (.failed "image failed to start"), e)
      else (.ok (), { e with
        instances := e.instances.insert intent.instanceId (e.started intent) })
    | .stop => (.ok (), { e with instances := e.instances.erase intent.instanceId })

def list (e : RecordingExecutor) : List InstanceView := e.instances.entries.map Prod.snd

end RecordingExecutor

/-! The catalog. -/

structure Endpoint where
  taskId : String
  address : String
  port : UInt16
  healthy : Bool
  expiresAtUnix : Int64

inductive CatalogError where
  | emptyService | emptyTask | emptyAddress | expiredLease | oversized

structure ServiceCatalog where
  services : OrdMap String (OrdMap String Endpoint)

def maxSnapshotBytes : Nat := 256 * 1024

namespace ServiceCatalog

def empty : ServiceCatalog := ⟨.empty⟩

def publish (c : ServiceCatalog) (service : String) (endpoint : Endpoint) (nowUnix : Int64) :
    Except CatalogError ServiceCatalog :=
  if isBlank service then .error .emptyService
  else if isBlank endpoint.taskId then .error .emptyTask
  else if isBlank endpoint.address then .error .emptyAddress
  else if endpoint.expiresAtUnix ≤ nowUnix then .error .expiredLease
  else .ok ⟨c.services.insert service
    (((c.services.get service).getD .empty).insert endpoint.taskId endpoint)⟩

def resolve (c : ServiceCatalog) (service : String) (nowUnix : Int64) :
    List Endpoint × ServiceCatalog :=
  match c.services.get service with
  | none => ([], c)
  | some endpoints =>
    let live := endpoints.retain fun _ endpoint => nowUnix < endpoint.expiresAtUnix
    ((live.entries.map Prod.snd).filter (·.healthy), ⟨c.services.insert service live⟩)

def fromSnapshot (c : ServiceCatalog) (nowUnix : Int64) : ServiceCatalog :=
  ⟨(OrdMap.mk (c.services.entries.map fun entry =>
      (entry.1, entry.2.retain fun _ endpoint => nowUnix < endpoint.expiresAtUnix))
    (by simpa [List.pairwise_map] using c.services.sorted)).retain
      fun _ endpoints => endpoints.entries ≠ []⟩

end ServiceCatalog
end Ferrocrate.Node
