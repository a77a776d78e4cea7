import Ferrocrate.Node.NodeRun

/-! What `enforce_health` sees and restarts in the passes of a run, and when the budget of restarts
holds. -/
namespace Ferrocrate.Node
open Lib
open Lib.Program

/-! ## A pass up to the look at the health, and from there -/

inductive Reached where
  | nothing (recovered : Nat)
  | health (desired : DesiredWorkload) (report : ReconcileReport) (orphans : List InstanceView)

section Parts
variable (sz : NodeSizes)

def untilHealth (now : Int64) : Pass Reached := do
  let recovered ← recoverAmbiguous sz now
  let h ← get
  let desired ← ofExcept (fun error => .error (.workload error))
    (h.workload.load sz.workloadBytes)
  match desired with
  | none => return .nothing recovered
  | some desired =>
    let views ← observed
    let report ← desired.services.foldlM (reconcileService sz views desired.revision now)
      ⟨[], [], [], [], recovered⟩
    let seen ← observed
    let orphans := seen.filter fun view => view.service ∉ desired.services.map (·.name)
    stopAll sz now orphans
    return .health desired report orphans

def fromHealth (now : Int64) : Reached → Pass ReconcileReport
  | .nothing recovered => convergeToNothing sz recovered now
  | .health desired report orphans => do
    let restarted ← enforceHealth sz desired now
    let current ← observed
    publishCatalog sz current now
    let h ← get
    saveState (if report.rolledBack = [] then desired.revision else h.state.appliedRevision)
    return { report with
      stopped := report.stopped ++ orphans.map (·.instanceId)
      restarted := restarted }

theorem reconcile_eq (now : Int64) :
    reconcile sz now = untilHealth sz now >>= fromHealth sz now := by
  unfold reconcile untilHealth
  simp only [bind_assoc]
  refine congrArg _ (funext fun recovered => congrArg _ (funext fun h => congrArg _
    (funext fun desired => ?_)))
  cases desired with
  | none => simp [fromHealth]
  | some desired => simp [fromHealth, convergeTo, bind_assoc]

end Parts

/-! ## What the parts of a pass leave alone -/

section Frame
variable {I : NodeHost → Prop} {sz : NodeSizes}

def Quiet (I : NodeHost → Prop) : Prop :=
  ∀ h h' : NodeHost, h'.executor = h.executor → h'.state = h.state → I h → I h'

theorem Quiet.keep (hquiet : Quiet I) {h h' : NodeHost} (hs : I h)
    (hexecutor : h'.executor = h.executor) (hstate : h'.state = h.state) : I h' :=
  hquiet h h' hexecutor hstate hs

theorem preserves_forM {α : Type} {as : List α} {f : α → Pass PUnit}
    (h : ∀ a ∈ as, Preserves I (f a)) : Preserves I (as.forM f) :=
  fun _ hs => wp_forM (fun a ha s hs => h a ha s hs) hs

theorem preserves_foldlM {α β : Type} {as : List α} {f : β → α → Pass β} {b : β}
    (h : ∀ b, ∀ a ∈ as, Preserves I (f b a)) : Preserves I (as.foldlM f b) := by
  induction as generalizing b with
  | nil => exact preserves_pure b
  | cons a as ih =>
    rw [List.foldlM_cons]
    exact (h b a List.mem_cons_self).bind fun c =>
      ih fun b' a' ha' => h b' a' (List.mem_cons_of_mem a ha')

theorem preserves_trip (hquiet : Quiet I) (point : LifecycleFaultPoint) :
    Preserves I (trip point) := by
  refine preserves_get.bind fun h => Preserves.runIf _ ?_
  refine Preserves.bind (preserves_modify fun s hs => ?_) fun _ => preserves_throw _
  exact hquiet.keep hs rfl rfl

theorem preserves_appendEntry (hquiet : Quiet I) {α : Type}
    (append : LifecycleJournal → Bool → Except JournalError (α × LifecycleJournal)) :
    Preserves I (appendEntry append) := by
  refine preserves_get.bind fun h => Preserves.bind (preserves_modify fun s hs => ?_) fun _ => ?_
  · exact hquiet.keep hs rfl rfl
  split
  · refine Preserves.bind (preserves_modify fun s hs => ?_) fun _ => preserves_throw _
    exact hquiet.keep hs rfl rfl
  · refine Preserves.bind (preserves_modify fun s hs => ?_) fun _ => preserves_pure _
    exact hquiet.keep hs rfl rfl

theorem preserves_applyMutation (hquiet : Quiet I) {action : MutationAction}
    {id service image : String} {revision : UInt64} {now : Int64}
    (hperformed : ∀ h, I h →
      I (h.performed ⟨action, id, service, image, revision, now⟩)) :
    Preserves I (applyMutation sz action id service image revision now) := by
  refine (preserves_appendEntry hquiet _).bind fun seq =>
    (preserves_trip hquiet _).bind fun _ => ?_
  refine Preserves.bind (fun s hs => hperformed s hs) fun result => ?_
  refine (preserves_trip hquiet _).bind fun _ => ?_
  cases result with
  | ok u => exact (preserves_appendEntry hquiet _).bind fun _ => preserves_trip hquiet _
  | error e =>
    exact (preserves_appendEntry hquiet _).bind fun _ =>
      (preserves_trip hquiet _).bind fun _ => preserves_throw _

theorem preserves_publishCatalog (hquiet : Quiet I) (views : List InstanceView) (now : Int64) :
    Preserves I (publishCatalog sz views now) := by
  refine (preserves_ofExcept _ _).bind fun catalog => (preserves_rejectIf _ _).bind fun _ => ?_
  refine Preserves.bind (preserves_modify fun s hs => ?_) fun _ => preserves_trip hquiet _
  exact hquiet.keep hs rfl rfl

section Untouched
variable (hquiet : Quiet I) (hperformed : ∀ h intent, I h → I (h.performed intent))
include hquiet

theorem preserves_recoverAmbiguous (now : Int64) : Preserves I (recoverAmbiguous sz now) := by
  refine preserves_get.bind fun h => ?_
  split
  · refine Preserves.bind (preserves_modify fun s hs => ?_) fun _ => preserves_throw _
    exact hquiet.keep hs rfl rfl
  · refine Preserves.bind (preserves_forM fun record _ => ?_) fun _ => preserves_pure _
    rw [recoverOne, appendOutcome]
    exact preserves_appendEntry hquiet _

include hperformed

variable {revision : UInt64} {now : Int64}

theorem preserves_mutation {action : MutationAction} {id service image : String} :
    Preserves I (applyMutation sz action id service image revision now) :=
  preserves_applyMutation hquiet fun h hs => hperformed h _ hs

variable {views : List InstanceView}

theorem preserves_stopAll :
    Preserves I (stopAll sz now views) :=
  preserves_forM fun _ _ => preserves_mutation hquiet hperformed

variable {spec : ServiceSpec}

theorem preserves_rollback {old new : UInt64} :
    Preserves I (rollback sz spec old new now) := by
  refine (preserves_get.bind fun _ => preserves_pure _).bind fun views => ?_
  refine (preserves_forM fun _ _ => preserves_mutation hquiet hperformed).bind fun _ => ?_
  exact preserves_forM fun _ _ => Preserves.runIf _ (preserves_mutation hquiet hperformed)

theorem preserves_startStep
    {ids : List String} : Preserves I (startStep sz spec revision now ids) := by
  induction ids with
  | nil => exact preserves_pure _
  | cons id ids ih =>
    refine (preserves_mutation hquiet hperformed).attempt.bind fun outcome => ?_
    match outcome with
    | .error (.crash point) => exact preserves_throw _
    | .error (.error (.executor detail)) => exact preserves_pure _
    | .error (.error (.workload _)) | .error (.error (.journal _))
    | .error (.error (.unschedulable _)) | .error (.error (.catalog _)) | .ok () => exact ih

theorem preserves_stopStep
    {ids : List String} : Preserves I (stopStep sz spec revision now ids) := by
  induction ids with
  | nil => exact preserves_pure _
  | cons id ids ih =>
    refine Preserves.bind ?_ fun stopped => ih.bind fun rest => preserves_pure _
    refine (preserves_get.bind fun _ => preserves_pure _).bind fun views => ?_
    refine preserves_ite ?_ (preserves_pure _)
    exact (preserves_mutation hquiet hperformed).bind fun _ => preserves_pure _

theorem preserves_runSteps
    {steps : List RolloutStep} : Preserves I (runSteps sz spec revision now steps) := by
  induction steps with
  | nil => exact preserves_pure _
  | cons step steps ih =>
    refine (preserves_startStep hquiet hperformed).bind fun refused => ?_
    cases refused with
    | some reason => exact preserves_pure _
    | none =>
      refine (PassInvariant.preserves_awaitStep spec step.start).bind fun late => ?_
      cases late with
      | some reason => exact preserves_pure _
      | none =>
        refine (preserves_stopStep hquiet hperformed).bind fun stopped => ?_
        refine ih.bind fun outcome => ?_
        cases outcome with
        | error reason => exact preserves_pure _
        | ok outcome => exact preserves_pure _

theorem preserves_updateStale
    {stale : List InstanceView} :
    Preserves I (updateStale sz spec revision stale now) := by
  refine preserves_ite (preserves_pure _) ?_
  refine (preserves_ofExcept _ _).bind fun steps => ?_
  refine (preserves_runSteps hquiet hperformed).bind fun outcome => ?_
  cases outcome with
  | error reason =>
    exact (preserves_rollback hquiet hperformed).bind fun _ => preserves_pure _
  | ok outcome => exact preserves_pure _

theorem preserves_convergeCount :
    Preserves I (convergeCount sz spec revision now) := by
  refine (preserves_get.bind fun _ => preserves_pure _).bind fun views => ?_
  refine (preserves_forM fun _ _ => preserves_mutation hquiet hperformed).bind fun _ => ?_
  exact (preserves_forM fun _ _ => preserves_mutation hquiet hperformed).bind fun _ =>
    preserves_pure _

theorem preserves_reconcileService
    {report : ReconcileReport} :
    Preserves I (reconcileService sz views revision now report spec) := by
  refine (preserves_updateStale hquiet hperformed).bind fun outcome => ?_
  cases outcome with
  | error aborted => exact preserves_pure _
  | ok outcome =>
    exact (preserves_convergeCount hquiet hperformed).bind fun _ => preserves_pure _

theorem preserves_untilHealth (now : Int64) : Preserves I (untilHealth sz now) := by
  refine (preserves_recoverAmbiguous hquiet now).bind fun recovered => preserves_get.bind fun h =>
    (preserves_ofExcept _ _).bind fun desired => ?_
  cases desired with
  | none => exact preserves_pure _
  | some desired =>
    refine (preserves_get.bind fun _ => preserves_pure _).bind fun views => ?_
    refine (preserves_foldlM fun report spec _ =>
      preserves_reconcileService hquiet hperformed).bind fun report => ?_
    refine (preserves_get.bind fun _ => preserves_pure _).bind fun seen => ?_
    exact (preserves_stopAll hquiet hperformed).bind fun _ => preserves_pure _

end Untouched

end Frame

/-! ## What one look does to the tracks -/

def seen (desired : DesiredWorkload) (view : InstanceView) : Option Nat :=
  match desired.services.find? (·.name = view.service) with
  | none => none
  | some spec => if view.revision ≠ desired.revision then none else some spec.health.retries

def sighting (desired : DesiredWorkload) (views : List InstanceView) (id : String) :
    Option (Nat × Bool) :=
  (views.find? fun view => view.instanceId = id).bind fun view =>
    (seen desired view).map fun retries => (retries, view.healthy)

theorem lookAt_eq (desired : DesiredWorkload)
    (acc : OrdMap String HealthTrack × List InstanceView) (view : InstanceView) :
    lookAt desired acc view =
      match seen desired view with
      | none => acc
      | some retries =>
        (acc.1.insert view.instanceId
            (((acc.1.get view.instanceId).getD ⟨0, 0⟩).look retries view.healthy).1,
          if (((acc.1.get view.instanceId).getD ⟨0, 0⟩).look retries view.healthy).2 then
            acc.2 ++ [view] else acc.2) := by
  unfold lookAt seen
  cases desired.services.find? (·.name = view.service) with
  | none => rfl
  | some spec =>
    by_cases hrevision : view.revision ≠ desired.revision
    · simp [hrevision]
    · simp [hrevision]

def idsOf (views : List InstanceView) : List String := views.map (·.instanceId)

variable {views : List InstanceView}

theorem foldl_lookAt (desired : DesiredWorkload) (id : String)
    (hnodup : (idsOf views).Nodup) (acc : OrdMap String HealthTrack × List InstanceView) :
    match sighting desired views id with
    | none => (views.foldl (lookAt desired) acc).1.get id = acc.1.get id ∧
        (id ∈ idsOf (views.foldl (lookAt desired) acc).2 ↔ id ∈ idsOf acc.2)
    | some (retries, healthy) =>
      (views.foldl (lookAt desired) acc).1.get id =
          some (((acc.1.get id).getD ⟨0, 0⟩).look retries healthy).1 ∧
        (id ∈ idsOf (views.foldl (lookAt desired) acc).2 ↔
          id ∈ idsOf acc.2 ∨ (((acc.1.get id).getD ⟨0, 0⟩).look retries healthy).2 = true) := by
  induction views generalizing acc with
  | nil => exact ⟨rfl, Iff.rfl⟩
  | cons view views ih =>
    obtain ⟨hnot, hrest⟩ := List.nodup_cons.mp hnodup
    have hnext := ih hrest (lookAt desired acc view)
    rw [List.foldl_cons]
    by_cases hid : view.instanceId = id
    · subst hid
      have hnone : views.find? (fun other => other.instanceId = view.instanceId) = none :=
        List.find?_eq_none.mpr fun other hother heq =>
          hnot (List.mem_map.mpr ⟨other, hother, of_decide_eq_true heq⟩)
      have hlater : sighting desired views view.instanceId = none := by
        rw [sighting, hnone]
        rfl
      have hhere : sighting desired (view :: views) view.instanceId =
          (seen desired view).map fun retries => (retries, view.healthy) := by
        simp [sighting]
      rw [hlater] at hnext
      rw [hhere, hnext.1, hnext.2, lookAt_eq]
      cases seen desired view with
      | none => exact ⟨rfl, Iff.rfl⟩
      | some retries =>
        simp only [Option.map_some]
        refine ⟨by rw [OrdMap.get_insert, if_pos rfl], ?_⟩
        split_ifs with hrestart
        · simp [idsOf, hrestart]
        · simp [hrestart]
    · have hskip : sighting desired (view :: views) id = sighting desired views id := by
        simp [sighting, hid]
      have htrack : (lookAt desired acc view).1.get id = acc.1.get id := by
        rw [lookAt_eq]
        cases seen desired view with
        | none => rfl
        | some retries => exact (OrdMap.get_insert _ _ _ _).trans (if_neg fun heq => hid heq.symm)
      have hlist : id ∈ idsOf (lookAt desired acc view).2 ↔ id ∈ idsOf acc.2 := by
        rw [lookAt_eq]
        cases seen desired view with
        | none => rfl
        | some retries =>
          simp only
          split_ifs
          · simp [idsOf, Ne.symm hid]
          · rfl
      rw [htrack, hlist] at hnext
      rw [hskip]
      exact hnext

def Keyed (e : RecordingExecutor) : Prop :=
  ∀ key view, e.instances.get key = some view → view.instanceId = key

theorem idsOf_list {e : RecordingExecutor} (h : Keyed e) : idsOf e.list = e.instances.keys := by
  rw [idsOf, RecordingExecutor.list, List.map_map]
  refine List.map_congr_left fun entry hentry => ?_
  exact h entry.1 entry.2 (e.instances.get_eq_some_iff.mpr hentry)

theorem keyed_mutate {e : RecordingExecutor} (h : Keyed e) (intent : MutationIntent) :
    Keyed (e.mutate intent).2 := by
  rcases mutate_cases e intent with ⟨_, -, hsame⟩ | ⟨-, -, hinsert⟩ | ⟨-, -, herase⟩
  · rw [hsame]
    exact h
  · rw [hinsert]
    intro key view hget
    rw [OrdMap.get_insert] at hget
    split_ifs at hget with hkey
    · cases hget
      exact hkey.symm
    · exact h key view hget
  · rw [herase]
    intro key view hget
    rw [OrdMap.get_erase] at hget
    split_ifs at hget
    exact h key view hget

def NodeHost.looked (h : NodeHost) (desired : DesiredWorkload) :
    OrdMap String HealthTrack × List InstanceView :=
  h.executor.list.foldl (lookAt desired)
    (h.state.health.retain fun id _ => h.executor.list.any (·.instanceId = id), [])

structure Look where
  desired : DesiredWorkload
  views : List InstanceView
  restarts : List String

def lookIn (sz : NodeSizes) (now : Int64) (h : NodeHost) : Option Look :=
  match untilHealth sz now h with
  | (.ok (.health desired _ _), mid) =>
    some ⟨desired, mid.executor.list, idsOf (mid.looked desired).2⟩
  | _ => none

def NodeHost.track (h : NodeHost) (id : String) : HealthTrack :=
  (h.state.health.get id).getD ⟨0, 0⟩

theorem looked_track {mid : NodeHost} (hkeyed : Keyed mid.executor) (desired : DesiredWorkload)
    (id : String) :
    match sighting desired mid.executor.list id with
    | none => id ∉ idsOf (mid.looked desired).2 ∧
        ((mid.looked desired).1.get id).getD ⟨0, 0⟩ =
          if id ∈ idsOf mid.executor.list then mid.track id else ⟨0, 0⟩
    | some (retries, healthy) =>
      id ∈ idsOf mid.executor.list ∧
        ((mid.looked desired).1.get id).getD ⟨0, 0⟩ = ((mid.track id).look retries healthy).1 ∧
        (id ∈ idsOf (mid.looked desired).2 ↔ ((mid.track id).look retries healthy).2 = true) := by
  have hnodup : (idsOf mid.executor.list).Nodup := by
    rw [idsOf_list hkeyed]
    exact mid.executor.instances.nodup_keys
  have hany : mid.executor.list.any (·.instanceId = id) =
      decide (id ∈ idsOf mid.executor.list) := by
    rw [Bool.eq_iff_iff, List.any_eq_true, decide_eq_true_eq, idsOf, List.mem_map]
    simp
  have hretained : (mid.state.health.retain fun id _ =>
      mid.executor.list.any (·.instanceId = id)).get id =
        if id ∈ idsOf mid.executor.list then mid.state.health.get id else none := by
    rw [OrdMap.get_retain, hany]
    cases mid.state.health.get id with
    | none => simp
    | some track => simp [Option.filter_some]
  have hfold := foldl_lookAt desired id hnodup
    (mid.state.health.retain fun id _ => mid.executor.list.any (·.instanceId = id), [])
  cases hsighting : sighting desired mid.executor.list id with
  | none =>
    rw [hsighting] at hfold
    refine ⟨fun hmem => ?_, ?_⟩
    · exact absurd (hfold.2.mp hmem) (by simp [idsOf])
    · rw [NodeHost.looked, hfold.1, hretained, NodeHost.track]
      split_ifs
      · rfl
      · rfl
  | some pair =>
    obtain ⟨retries, healthy⟩ := pair
    rw [hsighting] at hfold
    have hmem : id ∈ idsOf mid.executor.list := by
      obtain ⟨view, hfind, -⟩ := Option.bind_eq_some_iff.mp hsighting
      have hid : view.instanceId = id := by simpa using List.find?_some hfind
      exact hid ▸ List.mem_map_of_mem (List.mem_of_find?_eq_some hfind)
    simp only [hretained, if_pos hmem] at hfold
    refine ⟨hmem, ?_, ?_⟩
    · rw [NodeHost.looked, hfold.1]
      rfl
    · exact hfold.2.trans (or_iff_right (by simp [idsOf]))

/-! ## What a pass does to the tracks -/

structure Looked (mid : NodeHost) (desired : DesiredWorkload) (h : NodeHost) : Prop where
  keyed : Keyed h.executor
  health : h.state.health = (mid.looked desired).1
  absent : ∀ id, id ∉ idsOf mid.executor.list → h.executor.instances.get id = none

variable {h : NodeHost}

theorem keyed_performed (hkeyed : Keyed h.executor) (intent : MutationIntent) :
    Keyed (h.performed intent).executor :=
  keyed_mutate hkeyed intent

theorem get_performed {intent : MutationIntent} {id : String}
    (hne : id ≠ intent.instanceId) :
    (h.performed intent).executor.instances.get id = h.executor.instances.get id := by
  show (h.executor.mutate intent).2.instances.get id = _
  rcases mutate_cases h.executor intent with ⟨_, -, hsame⟩ | ⟨-, -, hinsert⟩ | ⟨-, -, herase⟩
  · rw [hsame]
  · rw [hinsert]
    exact (OrdMap.get_insert _ _ _ _).trans (if_neg hne)
  · rw [herase]
    exact (OrdMap.get_erase _ _ _).trans (if_neg hne)

theorem foldl_lookAt_mem {desired : DesiredWorkload}
    {acc : OrdMap String HealthTrack × List InstanceView} {view : InstanceView}
    (h : view ∈ (views.foldl (lookAt desired) acc).2) : view ∈ acc.2 ∨ view ∈ views := by
  induction views generalizing acc with
  | nil => exact .inl h
  | cons other views ih =>
    rcases ih h with hacc | hviews
    · rw [lookAt_eq] at hacc
      cases hseen : seen desired other with
      | none =>
        rw [hseen] at hacc
        exact .inl hacc
      | some retries =>
        rw [hseen] at hacc
        simp only at hacc
        split_ifs at hacc
        · rcases List.mem_append.mp hacc with hacc | hacc
          · exact .inl hacc
          · exact .inr (List.mem_singleton.mp hacc ▸ List.mem_cons_self)
        · exact .inl hacc
    · exact .inr (List.mem_cons_of_mem other hviews)

theorem wp_fromHealth {sz : NodeSizes} {now : Int64} {mid : NodeHost} (hkeyed : Keyed mid.executor)
    (desired : DesiredWorkload) (report : ReconcileReport) (orphans : List InstanceView) :
    wp (fromHealth sz now (.health desired report orphans)) (fun _ => Looked mid desired)
      (fun _ => Looked mid desired) mid := by
  have hquiet : Quiet (Looked mid desired) := fun h h' hexecutor hstate hs =>
    ⟨hexecutor ▸ hs.keyed, hstate ▸ hs.health, hexecutor ▸ hs.absent⟩
  have hmutation : ∀ view ∈ (mid.looked desired).2, ∀ action,
      Preserves (Looked mid desired) (applyMutation sz action view.instanceId view.service
        view.image view.revision now) := by
    intro view hview action
    refine preserves_applyMutation hquiet fun h hs => ⟨keyed_performed hs.keyed _, hs.health, ?_⟩
    intro id hid
    rw [get_performed, hs.absent id hid]
    rintro rfl
    exact hid (List.mem_map_of_mem ((foldl_lookAt_mem hview).resolve_left (by simp)))
  have hrestart : Preserves (Looked mid desired) ((mid.looked desired).2.forM fun view => do
      applyMutation sz .stop view.instanceId view.service view.image view.revision now
      applyMutation sz .start view.instanceId view.service view.image view.revision now) :=
    preserves_forM fun view hview => (hmutation view hview _).bind fun _ => hmutation view hview _
  have hstart : Looked mid desired
      { mid with state := { mid.state with health := (mid.looked desired).1 } } := by
    refine ⟨hkeyed, rfl, fun id hid => ?_⟩
    rw [idsOf_list hkeyed] at hid
    by_contra hthere
    exact hid (mid.executor.instances.mem_keys_iff.mpr hthere)
  rw [fromHealth, wp_bind]
  refine wp_mono (Q := fun _ => Looked mid desired) ?_ (fun restarted h hs => ?_) fun _ _ hs => hs
  · show wp (enforceHealth sz desired now) _ _ mid
    rw [enforceHealth, wp_bind, wp_get]
    show wp (do
      modify fun h => { h with state := { h.state with health := (mid.looked desired).1 } }
      (mid.looked desired).2.forM _
      return _) _ _ mid
    rw [wp_bind, wp_modify]
    exact (hrestart.bind fun _ => preserves_pure _) _ hstart
  · refine Preserves.bind (preserves_get.bind fun _ => preserves_pure _) (fun current => ?_) h hs
    refine (preserves_publishCatalog hquiet current now).bind fun _ => ?_
    refine preserves_get.bind fun _ => ?_
    refine Preserves.bind (preserves_modify fun s hs => ?_) fun _ => preserves_pure _
    exact ⟨hs.keyed, hs.health, hs.absent⟩

structure Unlooked (h₀ h : NodeHost) : Prop where
  keyed : Keyed h.executor
  health : h.state.health = h₀.state.health

theorem quiet_unlooked (h₀ : NodeHost) : Quiet (Unlooked h₀) := fun _ _ hexecutor hstate hs =>
  ⟨hexecutor ▸ hs.keyed, hstate ▸ hs.health⟩

theorem performed_unlooked (h₀ : NodeHost) : ∀ h intent, Unlooked h₀ h →
    Unlooked h₀ (h.performed intent) :=
  fun _ intent hs => ⟨keyed_performed hs.keyed intent, hs.health⟩

theorem reconcile_look (sz : NodeSizes) (now : Int64) (hkeyed : Keyed h.executor) :
    match lookIn sz now h with
    | none => Unlooked h ((reconcile sz now).after h)
    | some look => ∃ mid : NodeHost, Keyed mid.executor ∧ mid.state.health = h.state.health ∧
        look.views = mid.executor.list ∧ look.restarts = idsOf (mid.looked look.desired).2 ∧
          Looked mid look.desired ((reconcile sz now).after h) := by
  have huntil : wp (untilHealth sz now) (fun _ => Unlooked h) (fun _ => Unlooked h) h :=
    preserves_untilHealth (quiet_unlooked h) (performed_unlooked h) now h ⟨hkeyed, rfl⟩
  have hafter : (reconcile sz now).after h =
      (match untilHealth sz now h with
      | (.ok reached, mid) => (fromHealth sz now reached).after mid
      | (.error _, mid) => mid) := by
    rw [reconcile_eq]
    simp only [after, bind, ExceptT.bind, ExceptT.mk, StateT.bind, ExceptT.bindCont]
    cases untilHealth sz now h with
    | mk result mid => cases result <;> rfl
  rw [hafter]
  unfold wp at huntil
  unfold lookIn
  cases hrun : untilHealth sz now h with
  | mk result mid =>
    rw [hrun] at huntil
    cases result with
    | error e => exact huntil
    | ok reached =>
      cases reached with
      | nothing recovered =>
        refine after_of_wp (P := Unlooked h) ?_
        show wp (convergeToNothing sz recovered now) _ _ mid
        refine Preserves.bind (preserves_get.bind fun _ => preserves_pure _)
          (fun views => ?_) mid huntil
        refine (preserves_stopAll (quiet_unlooked h) (performed_unlooked h)).bind fun _ => ?_
        refine (preserves_publishCatalog (quiet_unlooked h) views now).bind fun _ => ?_
        refine Preserves.bind (preserves_modify fun s hs => ?_) fun _ => preserves_pure _
        exact ⟨hs.keyed, hs.health⟩
      | health desired report orphans =>
        exact ⟨mid, huntil.keyed, huntil.health, rfl, rfl,
          after_of_wp (wp_fromHealth huntil.keyed desired report orphans)⟩

/-! ## Runs -/

structure Observation where
  retries : Nat
  healthy : Bool
  restarted : Bool
  deriving DecidableEq

def Look.observation (look : Look) (id : String) : Option Observation :=
  (sighting look.desired look.views id).map fun pair =>
    ⟨pair.1, pair.2, decide (id ∈ look.restarts)⟩

namespace ManagedNode
variable (sz : NodeSizes)

def look (n : ManagedNode) : NodeCall → Option Look
  | .reconcile now => lookIn sz now n.host
  | _ => none

def looks : ManagedNode → List NodeCall → List Look
  | _, [] => []
  | n, call :: calls => (n.look sz call).toList ++ looks (n.step sz call) calls

def observations (n : ManagedNode) (calls : List NodeCall) (id : String) : List Observation :=
  (looks sz n calls).filterMap (·.observation id)

def Saved (n : ManagedNode) : NodeCall → Prop
  | .restart _ => n.host.state.health = (n.host.stateFile.getD .default).health
  | _ => True

def Present (id : String) (n : ManagedNode) : NodeCall → Prop
  | .reconcile _ => (n.host.executor.instances.get id).isSome
  | _ => True

instance (n : ManagedNode) (call : NodeCall) : Decidable (Saved n call) := by
  cases call <;> unfold Saved <;> infer_instance

instance (id : String) (n : ManagedNode) (call : NodeCall) : Decidable (Present id n call) := by
  cases call <;> unfold Present <;> infer_instance

end ManagedNode

/-- The last observations, as many as the retries at least, are all of an unhealthy instance, and
none before the last restarted it. -/
def Collapsed (retries : Nat) (history : List Observation) : Prop :=
  ∃ earlier recent, history = earlier ++ recent ∧ retries ≤ recent.length ∧
    (∀ o ∈ recent, o.healthy = false) ∧ ∀ o ∈ recent.dropLast, o.restarted = false

def Counts (track : HealthTrack) (history : List Observation) : Prop :=
  ∃ earlier recent, history = earlier ++ recent ∧ track.consecutiveFailures ≤ recent.length ∧
    (∀ o ∈ recent, o.healthy = false) ∧ ∀ o ∈ recent, o.restarted = false

variable {track : HealthTrack}

theorem Counts.of_zero (h : track.consecutiveFailures = 0)
    (history : List Observation) : Counts track history :=
  ⟨history, [], (List.append_nil history).symm, by simp [h], nofun, nofun⟩

theorem Counts.look {history : List Observation} (h : Counts track history)
    {o : Observation} (ho : o.restarted = (track.look o.retries o.healthy).2) :
    Counts (track.look o.retries o.healthy).1 (history ++ [o]) ∧
      (o.restarted = true → Collapsed o.retries (history ++ [o])) := by
  obtain ⟨earlier, recent, rfl, hcount, hunhealthy, hkept⟩ := h
  rw [ho]
  unfold HealthTrack.look at ho ⊢
  split_ifs at ho ⊢ with hhealthy hfew
  · exact ⟨.of_zero rfl _, nofun⟩
  · refine ⟨⟨earlier, recent ++ [o], by rw [List.append_assoc], ?_, ?_, ?_⟩, nofun⟩
    · simpa using hcount
    · exact List.forall_mem_append.mpr
        ⟨hunhealthy, List.forall_mem_singleton.mpr (Bool.eq_false_iff.mpr hhealthy)⟩
    · exact List.forall_mem_append.mpr ⟨hkept, List.forall_mem_singleton.mpr ho⟩
  · refine ⟨.of_zero rfl _, fun _ => ⟨earlier, recent ++ [o], List.append_assoc .., ?_, ?_, ?_⟩⟩
    · rw [List.length_append, List.length_singleton]
      omega
    · exact List.forall_mem_append.mpr
        ⟨hunhealthy, List.forall_mem_singleton.mpr (Bool.eq_false_iff.mpr hhealthy)⟩
    · rw [List.dropLast_concat]
      exact hkept

theorem look_restarts (retries : Nat) (healthy : Bool)
    (h : track.restarts ≤ restartBudget) :
    (track.look retries healthy).1.restarts ≤ restartBudget ∧
      (track.look retries healthy).1.restarts =
        track.restarts + (track.look retries healthy).2.toNat := by
  unfold HealthTrack.look
  split_ifs with hhealthy hfew
  · exact ⟨h, rfl⟩
  · exact ⟨h, rfl⟩
  · have hlt := (not_or.mp hfew).2
    exact ⟨by show track.restarts + 1 ≤ restartBudget; omega, rfl⟩

namespace ManagedNode
variable {sz : NodeSizes} {n : ManagedNode} {id : String}

theorem publish_host (n : ManagedNode) (workload : DesiredWorkload) :
    (n.step sz (.publish workload)).host = (publishDesired sz workload).after n.host := by
  rw [step, after]
  cases publishDesired sz workload n.host with
  | mk result host => cases result <;> rfl

theorem publish_quiet (sz : NodeSizes) (h : NodeHost) (workload : DesiredWorkload) :
    ((publishDesired sz workload).after h).executor = h.executor ∧
      ((publishDesired sz workload).after h).state = h.state := by
  refine after_of_wp (P := fun h' : NodeHost => h'.executor = h.executor ∧ h'.state = h.state) ?_
  have hpreserves : Preserves (fun h' : NodeHost => h'.executor = h.executor ∧ h'.state = h.state)
      (publishDesired sz workload) := by
    refine (preserves_ofExcept _ _).bind fun _ => (preserves_rejectIf _ _).bind fun _ =>
      preserves_get.bind fun _ => (preserves_ofExcept _ _).bind fun store => ?_
    exact preserves_modify fun s hs => hs
  exact hpreserves h ⟨rfl, rfl⟩

structure Between (n n' : ManagedNode) : Prop where
  keyed : Keyed n.host.executor → Keyed n'.host.executor
  health : n'.host.state.health = n.host.state.health
  absent : ∀ id, n.host.executor.instances.get id = none →
    n'.host.executor.instances.get id = none

variable {f : InstanceView → InstanceView}

theorem between_modify {e : RecordingExecutor} {id : String}
    (hf : ∀ view, (f view).instanceId = view.instanceId) (h : Keyed e) :
    ∀ key view, (e.instances.modify id f).get key = some view → view.instanceId = key := by
  intro key view hget
  rw [OrdMap.get_modify] at hget
  split_ifs at hget
  · obtain ⟨old, hold, rfl⟩ := Option.map_eq_some_iff.mp hget
    rw [hf]
    exact h key old hold
  · exact h key view hget

theorem absent_modify {e : RecordingExecutor} {id : String}
    (key : String) (h : e.instances.get key = none) : (e.instances.modify id f).get key = none := by
  rw [OrdMap.get_modify, h]
  split_ifs <;> rfl

theorem step_between (sz : NodeSizes) {call : NodeCall} (hsaved : Saved n call)
    (hcall : ∀ now, call ≠ .reconcile now) : Between n (n.step sz call) := by
  cases call with
  | reconcile now => exact absurd rfl (hcall now)
  | publish workload =>
    obtain ⟨hexecutor, hstate⟩ := publish_quiet sz n.host workload
    rw [← publish_host] at hexecutor hstate
    exact ⟨fun h => hexecutor ▸ h, by rw [hstate], fun id h => by rw [hexecutor, h]⟩
  | restart now => exact ⟨id, hsaved.symm, fun _ h => h⟩
  | setUnhealthy id =>
    exact ⟨between_modify fun _ => rfl, rfl, absent_modify⟩
  | clearUnhealthy id => exact ⟨between_modify fun _ => rfl, rfl, absent_modify⟩
  | arm faults => exact ⟨id, rfl, fun _ h => h⟩
  | fates appendFails => exact ⟨id, rfl, fun _ h => h⟩
  | failStartsFor ids => exact ⟨id, rfl, fun _ h => h⟩
  | tick clock => exact ⟨id, rfl, fun _ h => h⟩

theorem step_cases (sz : NodeSizes) {call : NodeCall} (hkeyed : Keyed n.host.executor)
    (hsaved : Saved n call) (id : String) :
    Keyed (n.step sz call).host.executor ∧
      ((∃ look o, n.look sz call = some look ∧ look.observation id = some o ∧
          (o.restarted = true ↔ id ∈ look.restarts) ∧
          o.restarted = ((n.host.track id).look o.retries o.healthy).2 ∧
          (n.step sz call).host.track id = ((n.host.track id).look o.retries o.healthy).1) ∨
        (∀ look, n.look sz call = some look → look.observation id = none ∧ id ∉ look.restarts) ∧
          ((n.step sz call).host.track id = n.host.track id ∨
            (n.step sz call).host.track id = ⟨0, 0⟩ ∧
              (n.step sz call).host.executor.instances.get id = none)) := by
  by_cases hcall : ∃ now, call = .reconcile now
  · obtain ⟨now, rfl⟩ := hcall
    have hlook := reconcile_look sz now hkeyed
    have hhost : (n.step sz (.reconcile now)).host = (reconcile sz now).after n.host := rfl
    rw [hhost]
    show _ ∧ ((∃ look o, lookIn sz now n.host = some look ∧ _) ∨
      (∀ look, lookIn sz now n.host = some look → _) ∧ _)
    cases hlookIn : lookIn sz now n.host with
    | none =>
      rw [hlookIn] at hlook
      refine ⟨hlook.keyed, .inr ⟨nofun, .inl ?_⟩⟩
      rw [NodeHost.track, hlook.health]
      rfl
    | some look =>
      rw [hlookIn] at hlook
      obtain ⟨mid, hmid, hhealth, hviews, hrestarts, hlooked⟩ := hlook
      have htrack := looked_track hmid look.desired id
      have hsame : mid.track id = n.host.track id := by
        rw [NodeHost.track, hhealth]
        rfl
      have hafter : ((reconcile sz now).after n.host).track id =
          ((mid.looked look.desired).1.get id).getD ⟨0, 0⟩ := by
        rw [NodeHost.track, hlooked.health]
      refine ⟨hlooked.keyed, ?_⟩
      rw [← hviews] at htrack
      cases hsighting : sighting look.desired look.views id with
      | none =>
        rw [hsighting] at htrack
        refine .inr ⟨?_, ?_⟩
        · rintro _ ⟨⟩
          exact ⟨by rw [Look.observation, hsighting]; rfl, hrestarts ▸ htrack.1⟩
        · rw [hafter, htrack.2, hsame]
          split_ifs with hmem
          · exact .inl rfl
          · exact .inr ⟨rfl, hlooked.absent id (hviews ▸ hmem)⟩
      | some pair =>
        obtain ⟨retries, healthy⟩ := pair
        rw [hsighting, hsame] at htrack
        obtain ⟨-, hnext, hrestart⟩ := htrack
        rw [← hrestarts] at hrestart
        refine .inl ⟨look, ⟨retries, healthy, decide (id ∈ look.restarts)⟩, rfl, ?_, ?_, ?_, ?_⟩
        · rw [Look.observation, hsighting]
          rfl
        · exact decide_eq_true_iff
        · rw [Bool.eq_iff_iff, decide_eq_true_eq]
          exact hrestart
        · rw [hafter, hnext]
  · have hother : ∀ now, call ≠ .reconcile now := fun now heq => hcall ⟨now, heq⟩
    obtain ⟨hkept, hhealth, -⟩ := step_between sz hsaved hother
    have hnone : n.look sz call = none := by
      cases call with
      | reconcile now => exact absurd rfl (hother now)
      | _ => rfl
    refine ⟨hkept hkeyed, .inr ⟨fun look hlook => ?_, .inl ?_⟩⟩
    · rw [hnone] at hlook
      cases hlook
    · rw [NodeHost.track, hhealth]
      rfl

variable {calls : List NodeCall}

theorem collapsed_of_run (hkeyed : Keyed n.host.executor)
    (hsaved : Runs.Along (step sz) Saved n calls) {history : List Observation}
    (hcounts : Counts (n.host.track id) history) {before after : List Observation} {o : Observation}
    (hobserved : observations sz n calls id = before ++ o :: after) (ho : o.restarted = true) :
    Collapsed o.retries (history ++ before ++ [o]) := by
  induction calls generalizing n history before with
  | nil => simp [observations, looks] at hobserved
  | cons call calls ih =>
    obtain ⟨hcall, hcalls⟩ := hsaved
    obtain ⟨hkeyed', hstep⟩ := step_cases sz hkeyed hcall id
    rcases hstep with ⟨look, seen, hlook, hseen, -, hrestarted, htrack⟩ | ⟨hunseen, htrack⟩
    · have hsplit : observations sz n (call :: calls) id =
          seen :: observations sz (n.step sz call) calls id := by
        simp [observations, looks, hlook, hseen]
      obtain ⟨hcounts', hcollapsed⟩ := hcounts.look hrestarted
      rw [← htrack] at hcounts'
      rw [hsplit] at hobserved
      cases before with
      | nil =>
        obtain ⟨rfl, -⟩ := List.cons.inj hobserved
        rw [List.append_nil]
        exact hcollapsed ho
      | cons first before =>
        obtain ⟨rfl, hrest⟩ := List.cons.inj hobserved
        have hlater := ih hkeyed' hcalls hcounts' hrest
        rwa [List.append_assoc history] at hlater
    · have hsplit : observations sz n (call :: calls) id =
          observations sz (n.step sz call) calls id := by
        cases hlook : n.look sz call with
        | none => simp [observations, looks, hlook]
        | some look => simp [observations, looks, hlook, (hunseen look hlook).1]
      rw [hsplit] at hobserved
      refine ih hkeyed' hcalls ?_ hobserved
      rcases htrack with hsame | ⟨hzero, -⟩
      · rwa [hsame]
      · exact .of_zero (by rw [hzero]) history

theorem looks_of_absent (hsaved : Runs.Along (step sz) Saved n calls)
    (hpresent : Runs.Along (step sz) (Present id) n calls)
    (habsent : n.host.executor.instances.get id = none) : looks sz n calls = [] := by
  induction calls generalizing n with
  | nil => rfl
  | cons call calls ih =>
    have hother : ∀ now, call ≠ .reconcile now := by
      rintro now rfl
      have hthere := hpresent.1
      rw [Present, habsent] at hthere
      cases hthere
    have hnone : n.look sz call = none := by
      cases call with
      | reconcile now => exact absurd rfl (hother now)
      | _ => rfl
    have hnext := (step_between sz hsaved.1 hother).absent id habsent
    rw [looks, hnone, ih hsaved.2 hpresent.2 hnext]
    rfl

theorem budget_of_run (hkeyed : Keyed n.host.executor)
    (hsaved : Runs.Along (step sz) Saved n calls)
    (hpresent : Runs.Along (step sz) (Present id) n calls)
    (hbudget : (n.host.track id).restarts ≤ restartBudget) :
    (n.host.track id).restarts + (looks sz n calls).countP (fun look => id ∈ look.restarts) ≤
      restartBudget := by
  induction calls generalizing n with
  | nil => exact hbudget
  | cons call calls ih =>
    obtain ⟨hkeyed', hstep⟩ := step_cases sz hkeyed hsaved.1 id
    rw [looks, List.countP_append]
    rcases hstep with ⟨look, o, hlook, -, hiff, hrestarted, htrack⟩ | ⟨hunseen, htrack⟩
    · obtain ⟨hle, hrestarts⟩ := look_restarts o.retries o.healthy hbudget
      rw [← htrack] at hle hrestarts
      have hrest := ih hkeyed' hsaved.2 hpresent.2 hle
      have hcount : (n.look sz call).toList.countP (fun look => id ∈ look.restarts) =
          ((n.host.track id).look o.retries o.healthy).2.toNat := by
        rw [hlook, ← hrestarted]
        cases hvalue : o.restarted with
        | true => simp [hiff.mp hvalue]
        | false => simp [mt hiff.mpr (Bool.eq_false_iff.mp hvalue)]
      omega
    · have hcount : (n.look sz call).toList.countP (fun look => id ∈ look.restarts) = 0 := by
        cases hlook : n.look sz call with
        | none => rfl
        | some look => simp [(hunseen look hlook).2]
      rw [hcount, Nat.zero_add]
      rcases htrack with hsame | ⟨-, habsent⟩
      · rw [← hsame] at hbudget ⊢
        exact ih hkeyed' hsaved.2 hpresent.2 hbudget
      · rw [looks_of_absent hsaved.2 hpresent.2 habsent]
        exact hbudget

theorem tracks_of_run (id : String) (hkeyed : Keyed n.host.executor)
    (hsaved : Runs.Along (step sz) Saved n calls)
    (hbudget : (n.host.track id).restarts ≤ restartBudget) :
    Keyed (calls.foldl (step sz) n).host.executor ∧
      ((calls.foldl (step sz) n).host.track id).restarts ≤ restartBudget := by
  refine (Runs.Along.invariant (I := fun n => Keyed n.host.executor ∧
    (n.host.track id).restarts ≤ restartBudget) ?_ hsaved ⟨hkeyed, hbudget⟩).last
  rintro m call hsaved ⟨hkeyed, hbudget⟩
  obtain ⟨hkeyed', hstep⟩ := step_cases sz hkeyed hsaved id
  refine ⟨hkeyed', ?_⟩
  rcases hstep with ⟨look, o, -, -, -, -, htrack⟩ | ⟨-, hsame | ⟨hzero, -⟩⟩
  · exact htrack ▸ (look_restarts o.retries o.healthy hbudget).1
  · exact hsame ▸ hbudget
  · rw [hzero]
    exact Nat.zero_le _

/-- Where each process starts with the tracks the last one had in memory, an instance that is there
at the start of every pass is restarted within the budget, and every restart comes after as many
observations of an unhealthy instance as the retries say. -/
theorem restarts_within_budget (sz : NodeSizes) (clock : Int64) (before calls : List NodeCall)
    (id : String) (hsaved : Runs.Along (step sz) Saved (new clock) (before ++ calls)) :
    (Runs.Along (step sz) (Present id) (run sz clock before) calls →
      (looks sz (run sz clock before) calls).countP (fun look => id ∈ look.restarts) ≤
        restartBudget) ∧
    ∀ earlier o later, observations sz (new clock) (before ++ calls) id = earlier ++ o :: later →
      o.restarted = true → Collapsed o.retries (earlier ++ [o]) := by
  have hkeyed : Keyed (new clock).host.executor := by
    intro key view hget
    cases hget
  obtain ⟨hbefore, hcalls⟩ := (Runs.along_append before calls).mp hsaved
  constructor
  · intro hpresent
    obtain ⟨hkeyed', hbudget⟩ := tracks_of_run id hkeyed hbefore (Nat.zero_le _)
    exact (Nat.le_add_left _ _).trans (budget_of_run hkeyed' hcalls hpresent hbudget)
  · intro earlier o later hobserved ho
    have hcollapsed := collapsed_of_run hkeyed hsaved (.of_zero rfl []) hobserved ho
    rwa [List.nil_append] at hcollapsed

/-! ## A node that is cut in every pass -/

def sickStart : List NodeCall :=
  [.publish ⟨1, [plainService "web" "web:1" 1 1]⟩, .reconcile 1000,
    .setUnhealthy (instanceId "web" 1 0), .reconcile 1000]

def cutPass : List NodeCall := [.arm [.afterCatalogUpdate], .reconcile 1000, .restart 1000]

def sickPasses : List NodeCall := (List.replicate 6 [.reconcile 1000, .restart 1000]).flatten

def cutPasses : List NodeCall := (List.replicate 4 cutPass).flatten

theorem restarts_of_sickPasses :
    (looks plainSizes (run plainSizes 1000 sickStart) sickPasses).countP
        (fun look => instanceId "web" 1 0 ∈ look.restarts) ≤ 3 := by
  have hsaved : Runs.Along (step plainSizes) Saved (new 1000) (sickStart ++ sickPasses) := by
    decide +kernel
  exact (restarts_within_budget plainSizes 1000 sickStart sickPasses _ hsaved).1 (by decide +kernel)

/-- Cut after each restart, the node restarts an instance a fourth time. -/
theorem restarted_beyond_budget :
    Runs.Along (step plainSizes) (Present (instanceId "web" 1 0)) (run plainSizes 1000 sickStart)
        cutPasses ∧
      (looks plainSizes (run plainSizes 1000 sickStart) cutPasses).countP
        (fun look => instanceId "web" 1 0 ∈ look.restarts) = 4 ∧
      restartBudget = 3 := by
  refine ⟨by decide +kernel, by decide +kernel, rfl⟩

end ManagedNode

end Ferrocrate.Node
