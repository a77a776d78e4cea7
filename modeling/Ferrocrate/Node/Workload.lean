import Ferrocrate.Lib.OrdMap
import Ferrocrate.Lib.Program
import Ferrocrate.Lib.Text

/-! The versioned desired workload of a node and its store (`node/workload.rs`), and the plan of a
rolling update (`rollout.rs`). -/
namespace Ferrocrate.Node
open Lib

structure UpdatePolicy where
  maxSurge : Nat
  maxUnavailable : Nat
  revisionFloor : Nat
  healthAttempts : Nat
deriving DecidableEq

structure HealthPolicy where
  retries : Nat
deriving DecidableEq

structure ServiceSpec where
  name : String
  image : String
  instances : Nat
  cpuMillisPerInstance : UInt64
  memoryBytesPerInstance : UInt64
  port : UInt16
  update : UpdatePolicy
  health : HealthPolicy
deriving DecidableEq

structure DesiredWorkload where
  revision : UInt64
  services : List ServiceSpec
deriving DecidableEq

inductive WorkloadError where
  | invalid
  | invalidService (service reason : String)
  | staleRevision (revision stored : UInt64)
deriving DecidableEq

def instanceId (service : String) (revision : UInt64) (index : Nat) : String :=
  service ++ "-r" ++ toString revision.toNat ++ "-" ++ toString index

namespace ServiceSpec

def validate (s : ServiceSpec) : Except WorkloadError Unit :=
  if isBlank s.name then .error (.invalidService s.name "name must not be empty")
  else if isBlank s.image then .error (.invalidService s.name "image must not be empty")
  else if s.instances = 0 then .error (.invalidService s.name "instances must be at least one")
  else if s.cpuMillisPerInstance = 0 ∨ s.memoryBytesPerInstance = 0 then
    .error (.invalidService s.name "per-instance resources must be non-zero")
  else if s.instances < s.update.revisionFloor then
    .error (.invalidService s.name "revision_floor must not exceed the instance count")
  else if s.update.maxSurge = 0 ∨ s.update.maxUnavailable = 0 then
    .error (.invalidService s.name "max_surge and max_unavailable must be non-zero")
  else if s.update.healthAttempts = 0 then
    .error (.invalidService s.name "health_attempts must be non-zero")
  else if s.health.retries = 0 then
    .error (.invalidService s.name "health retries must be non-zero")
  else .ok ()

def instanceIds (s : ServiceSpec) (revision : UInt64) : List String :=
  (List.range s.instances).map (instanceId s.name revision)

end ServiceSpec

namespace DesiredWorkload

def validate (w : DesiredWorkload) : Except WorkloadError Unit :=
  if w.services = [] ∨ ¬ (w.services.map (·.name)).Nodup then .error .invalid
  else w.services.forM (·.validate)

end DesiredWorkload

def maxWorkloadBytes : Nat := 256 * 1024

abbrev WorkloadStore := Option DesiredWorkload

namespace WorkloadStore
variable (workloadBytes : DesiredWorkload → Nat)

def load (store : WorkloadStore) : Except WorkloadError (Option DesiredWorkload) :=
  match store with
  | none => .ok none
  | some w =>
    if workloadBytes w > maxWorkloadBytes then .error .invalid
    else match w.validate with
      | .ok () => .ok (some w)
      | .error _ => .error .invalid

def save (store : WorkloadStore) (w : DesiredWorkload) : Except WorkloadError WorkloadStore := do
  w.validate
  match ← load workloadBytes store with
  | some current =>
    if w.revision ≤ current.revision then .error (.staleRevision w.revision current.revision)
    else return some w
  | none => return some w

end WorkloadStore

/-! Rolling updates. -/

structure RolloutPolicy where
  maxSurge : Nat
  maxUnavailable : Nat

structure RolloutStep where
  start : List String
  stop : List String
deriving DecidableEq

inductive RolloutError where
  | emptyId | duplicateId | zeroSurge | zeroUnavailable
deriving DecidableEq

def uniqueSorted (ids : List String) : Except RolloutError (List String) :=
  if ids.any isBlank then .error .emptyId
  else if ¬ ids.Nodup then .error .duplicateId
  else .ok (ids.insertionSort (· ≤ ·))

def startCount (policy : RolloutPolicy) (starts : List String) : Nat :=
  if starts = [] then 0 else min policy.maxSurge starts.length

def stopCount (policy : RolloutPolicy) (starts stops : List String) : Nat :=
  if stops = [] then 0
  else if startCount policy starts > 0 then min (max policy.maxUnavailable 1) stops.length
  else min policy.maxUnavailable stops.length

def planSteps (policy : RolloutPolicy) : Nat → List String → List String → List RolloutStep
  | 0, _, _ => []
  | fuel + 1, starts, stops =>
    if starts = [] ∧ stops = [] then []
    else
      let started := startCount policy starts
      let stopped := stopCount policy starts stops
      ⟨starts.take started, stops.take stopped⟩
        :: planSteps policy fuel (starts.drop started) (stops.drop stopped)

/-- Start the missing instances and stop the others, in batches: the supervisor's plan, where the loop
ends. -/
def plan (current desired : List String) (policy : RolloutPolicy) :
    Except RolloutError (List RolloutStep) := do
  let current ← uniqueSorted current
  let desired ← uniqueSorted desired
  let starts := desired.filter (· ∉ current)
  let stops := current.filter (· ∉ desired)
  if starts ≠ [] ∧ policy.maxSurge = 0 then .error .zeroSurge
  else if starts = [] ∧ stops ≠ [] ∧ policy.maxUnavailable = 0 then .error .zeroUnavailable
  else return planSteps policy (starts.length + stops.length) starts stops

/-! The service, the revision and the index can be read off an instance id. -/

theorem instanceId_toList (service : String) (revision : UInt64) (index : Nat) :
    (instanceId service revision index).toList
      = (service.toList ++ ['-'] ++ 'r' :: Nat.toDigits 10 revision.toNat)
        ++ '-' :: Nat.toDigits 10 index := by
  simp [instanceId]

theorem instanceId_inj {s t : String} {r q : UInt64} {i j : Nat} :
    instanceId s r i = instanceId t q j ↔ s = t ∧ r = q ∧ i = j := by
  constructor
  · intro h
    have hlist := congrArg String.toList h
    rw [instanceId_toList, instanceId_toList] at hlist
    obtain ⟨hfront, hindex⟩ := append_cons_inj_last (notMem_toDigits (by decide) i)
      (notMem_toDigits (by decide) j) hlist
    obtain ⟨hname, hrevision⟩ := append_cons_inj_last (notMem_toDigits (by decide) r.toNat)
      (notMem_toDigits (by decide) q.toNat) hfront
    exact ⟨String.toList_inj.mp (List.append_cancel_right hname),
      UInt64.toNat_inj.mp (toDigits_inj hrevision), toDigits_inj hindex⟩
  · rintro ⟨rfl, rfl, rfl⟩
    rfl

/-! What a plan holds. -/

theorem uniqueSorted_eq_ok {ids sorted : List String} (h : uniqueSorted ids = .ok sorted) :
    ids.Nodup ∧ sorted = ids.insertionSort (· ≤ ·) := by
  obtain ⟨-, h⟩ := Except.ite_error_eq_ok.mp h
  obtain ⟨hnodup, h⟩ := Except.ite_error_eq_ok.mp h
  exact ⟨by simpa using hnodup, (Except.ok.inj h).symm⟩

variable {policy : RolloutPolicy}

theorem mem_planSteps {fuel : Nat} {starts stops : List String}
    {step : RolloutStep} (h : step ∈ planSteps policy fuel starts stops) :
    (∀ id ∈ step.start, id ∈ starts) ∧ (∀ id ∈ step.stop, id ∈ stops) := by
  induction fuel generalizing starts stops with
  | zero => simp [planSteps] at h
  | succ fuel ih =>
    rw [planSteps] at h
    split at h
    · simp at h
    · rcases List.mem_cons.mp h with rfl | h
      · exact ⟨fun _ hid => List.mem_of_mem_take hid, fun _ hid => List.mem_of_mem_take hid⟩
      · obtain ⟨hstart, hstop⟩ := ih h
        exact ⟨fun id hid => List.mem_of_mem_drop (hstart id hid),
          fun id hid => List.mem_of_mem_drop (hstop id hid)⟩

variable {current desired : List String} {steps : List RolloutStep}

theorem plan_eq_ok (h : plan current desired policy = .ok steps) :
    ∃ current' desired', uniqueSorted current = .ok current' ∧ uniqueSorted desired = .ok desired' ∧
      steps = planSteps policy
        ((desired'.filter (· ∉ current')).length + (current'.filter (· ∉ desired')).length)
        (desired'.filter (· ∉ current')) (current'.filter (· ∉ desired')) := by
  obtain ⟨current', hcurrent, h⟩ := Except.bind_eq_ok.mp h
  obtain ⟨desired', hdesired, h⟩ := Except.bind_eq_ok.mp h
  obtain ⟨-, h⟩ := Except.ite_error_eq_ok.mp h
  obtain ⟨-, h⟩ := Except.ite_error_eq_ok.mp h
  exact ⟨current', desired', hcurrent, hdesired, (Except.ok.inj h).symm⟩

theorem mem_plan (h : plan current desired policy = .ok steps) {step : RolloutStep}
    (hstep : step ∈ steps) :
    (∀ id ∈ step.start, id ∈ desired ∧ id ∉ current) ∧
      (∀ id ∈ step.stop, id ∈ current ∧ id ∉ desired) := by
  obtain ⟨current', desired', hcurrent, hdesired, rfl⟩ := plan_eq_ok h
  obtain ⟨-, rfl⟩ := uniqueSorted_eq_ok hcurrent
  obtain ⟨-, rfl⟩ := uniqueSorted_eq_ok hdesired
  obtain ⟨hstart, hstop⟩ := mem_planSteps hstep
  exact ⟨fun id hid => by simpa using hstart id hid, fun id hid => by simpa using hstop id hid⟩

end Ferrocrate.Node
