import Ferrocrate.Container.StoreStep
import Ferrocrate.Lib.Runs

/-! Container rows and open lifecycle operations stay paired: which runs of store operations keep
them so. -/
namespace Ferrocrate.Container
open Lib

structure Database.Paired (db : Database) : Prop where
  reserved : ∀ id view operationId generation, db.row id = some view →
    view.pending = some (operationId, generation) → generation = view.generation ∧
      ∃ isOpen, db.operation operationId = some ⟨id, view.generation, isOpen⟩
  owned : ∀ operationId held, db.operation operationId = some held → held.isOpen = true →
    ∃ view, db.row held.container = some view ∧ view.pending.map Prod.fst = some operationId

def StoreCall.keepsPairs (db : Database) : StoreCall → Bool
  | .remove id =>
    (db.containers.get id).all fun record => record.pendingMutation.all fun reservation =>
      (db.operations reservation.operationId).all fun operation => operation.phase = .storeDeleted
  | .acknowledgeMutation operationId =>
    db.containers.entries.all fun entry =>
      entry.2.pendingMutation.map MutationReservation.operationId ≠ some operationId
  | _ => true

namespace Database
variable {db db' : Database} {call : StoreCall}

theorem Paired.new : Paired .new where
  reserved id view operationId generation h := by cases h
  owned operationId held h := by cases h

variable {operationId : OperationId}

theorem Paired.eq_of_pending (h : db.Paired) {id id' : String} {view view' : RowView} (hrow : db.row id = some view) (hrow' : db.row id' = some view')
    (hpending : view.pending.map Prod.fst = some operationId)
    (hpending' : view'.pending.map Prod.fst = some operationId) : id = id' := by
  obtain ⟨⟨_, g⟩, hp, rfl⟩ := Option.map_eq_some_iff.mp hpending
  obtain ⟨⟨_, g'⟩, hp', heq⟩ := Option.map_eq_some_iff.mp hpending'
  cases heq
  obtain ⟨-, isOpen, hheld⟩ := h.reserved id view _ g hrow hp
  obtain ⟨-, isOpen', hheld'⟩ := h.reserved id' view' _ g' hrow' hp'
  rw [hheld] at hheld'
  exact congrArg OperationView.container (Option.some.inj hheld')

theorem paired_of_views (hrow : db'.row = db.row) (hop : db'.operation = db.operation)
    (h : db.Paired) : db'.Paired := by
  constructor
  · intro id view operationId generation hview hpending
    rw [hrow] at hview
    rw [hop]
    exact h.reserved id view operationId generation hview hpending
  · intro operationId held hheld hopen
    rw [hop] at hheld
    rw [hrow]
    exact h.owned operationId held hheld hopen

variable {id : String}

theorem Paired.not_open (h : db.Paired)
    (hfree : ∀ view, db.row id = some view → view.pending = none)
    {held : OperationView} (hheld : db.operation operationId = some held)
    (hopen : held.isOpen = true) : held.container ≠ id := by
  intro heq
  obtain ⟨view, hrow, hpending⟩ := h.owned operationId held hheld hopen
  rw [hfree view (heq ▸ hrow)] at hpending
  cases hpending

variable {generation : UInt64}

theorem Paired.write (h : db.Paired)
    (hfree : ∀ view, db.row id = some view → view.pending = none)
    (hrow : db'.row = Function.update db.row id (some ⟨generation, none⟩))
    (hop : db'.operation = db.operation) : db'.Paired := by
  constructor
  · intro id' view operationId g hview hpending
    rw [hrow, Function.update_apply] at hview
    split at hview
    · cases hview
      cases hpending
    · rw [hop]
      exact h.reserved id' view operationId g hview hpending
  · intro operationId held hheld hopen
    rw [hop] at hheld
    rw [hrow, Function.update_apply, if_neg (h.not_open hfree hheld hopen)]
    exact h.owned operationId held hheld hopen

theorem Paired.reserve (h : db.Paired) (hfree : ∀ view, db.row id = some view → view.pending = none)
    (hnew : db.operation operationId = none)
    (hrow : db'.row = Function.update db.row id
      (some ⟨generation, some (operationId, generation)⟩))
    (hop : db'.operation = Function.update db.operation operationId
      (some ⟨id, generation, true⟩)) : db'.Paired := by
  constructor
  · intro id' view other g hview hpending
    rw [hrow, Function.update_apply] at hview
    split at hview
    next heq =>
      cases hview
      cases hpending
      refine ⟨rfl, true, ?_⟩
      rw [hop, Function.update_self, heq]
    next =>
      obtain ⟨hg, isOpen, hheld⟩ := h.reserved id' view other g hview hpending
      have hne : other ≠ operationId := by
        intro heq
        rw [heq, hnew] at hheld
        cases hheld
      refine ⟨hg, isOpen, ?_⟩
      rw [hop, Function.update_of_ne hne]
      exact hheld
  · intro other held hheld hopen
    rw [hop, Function.update_apply] at hheld
    split at hheld
    next heq =>
      cases hheld
      refine ⟨_, by rw [hrow, Function.update_self], ?_⟩
      rw [heq]
      rfl
    next =>
      rw [hrow, Function.update_apply, if_neg (h.not_open hfree hheld hopen)]
      exact h.owned other held hheld hopen

theorem Paired.reReserve (h : db.Paired) {isOpen : Bool} (hfree : db.row id = some ⟨generation, none⟩)
    (hheld : db.operation operationId = some ⟨id, generation, isOpen⟩)
    (hrow : db'.row = Function.update db.row id
      (some ⟨generation, some (operationId, generation)⟩))
    (hop : db'.operation = db.operation) : db'.Paired := by
  have hfree' : ∀ view, db.row id = some view → view.pending = none := by
    intro view hview
    rw [hfree] at hview
    cases hview
    rfl
  constructor
  · intro id' view other g hview hpending
    rw [hop]
    rw [hrow, Function.update_apply] at hview
    split at hview
    next heq =>
      cases hview
      cases hpending
      exact ⟨rfl, isOpen, heq ▸ hheld⟩
    next => exact h.reserved id' view other g hview hpending
  · intro other held hheld hopen
    rw [hop] at hheld
    rw [hrow, Function.update_apply, if_neg (h.not_open hfree' hheld hopen)]
    exact h.owned other held hheld hopen

theorem Paired.effect (h : db.Paired) {view : RowView}
    (hpending : db.row id = some view) (hid : view.pending.map Prod.fst = some operationId)
    (hrow : db'.row = db.row)
    (hop : db'.operation = Function.update db.operation operationId
      (some ⟨id, view.generation, true⟩)) : db'.Paired := by
  constructor
  · intro id' view' other g hview hother
    rw [hrow] at hview
    obtain ⟨hg, isOpen, hheld⟩ := h.reserved id' view' other g hview hother
    refine ⟨hg, ?_⟩
    rw [hop, Function.update_apply]
    split
    next heq =>
      have hsame : id' = id := h.eq_of_pending hview hpending (by rw [hother, heq]; rfl) hid
      subst hsame
      rw [hpending] at hview
      cases hview
      exact ⟨true, rfl⟩
    next => exact ⟨isOpen, hheld⟩
  · intro other held hheld hopen
    rw [hrow]
    rw [hop, Function.update_apply] at hheld
    split at hheld
    next heq =>
      cases hheld
      exact ⟨view, hpending, heq ▸ hid⟩
    next => exact h.owned other held hheld hopen

theorem Paired.drop (h : db.Paired) {view : RowView}
    {row' : Option RowView} {held' : Option OperationView} (hpending : db.row id = some view)
    (hid : view.pending.map Prod.fst = some operationId)
    (hfree : ∀ view, row' = some view → view.pending = none)
    (hclosed : ∀ held, held' = some held → held.isOpen = false)
    (hrow : db'.row = Function.update db.row id row')
    (hop : db'.operation = Function.update db.operation operationId held') : db'.Paired := by
  constructor
  · intro id' view' other g hview hother
    rw [hrow, Function.update_apply] at hview
    split at hview
    · rw [hfree view' hview] at hother
      cases hother
    next hne =>
      obtain ⟨hg, isOpen, hheld⟩ := h.reserved id' view' other g hview hother
      refine ⟨hg, isOpen, ?_⟩
      have hne' : other ≠ operationId := by
        intro heq
        exact hne (h.eq_of_pending hview hpending (by rw [hother, heq]; rfl) hid)
      rw [hop, Function.update_of_ne hne']
      exact hheld
  · intro other held hheld hopen
    rw [hop, Function.update_apply] at hheld
    split at hheld
    · rw [hclosed held hheld] at hopen
      cases hopen
    next hne =>
      obtain ⟨view', hview, hother⟩ := h.owned other held hheld hopen
      have hne' : held.container ≠ id := by
        intro heq
        rw [heq, hpending] at hview
        cases hview
        rw [hid] at hother
        exact hne (Option.some.inj hother).symm
      rw [hrow, Function.update_of_ne hne']
      exact ⟨view', hview, hother⟩

theorem Paired.remove (h : db.Paired)
    (hkeeps : (StoreCall.remove id).keepsPairs db = true)
    (hrow : db'.row = Function.update db.row id none) (hop : db'.operation = db.operation) :
    db'.Paired := by
  constructor
  · intro id' view operationId g hview hpending
    rw [hop]
    rw [hrow, Function.update_apply] at hview
    split at hview
    · cases hview
    · exact h.reserved id' view operationId g hview hpending
  · intro operationId held hheld hopen
    rw [hop] at hheld
    obtain ⟨view, hview, hpending⟩ := h.owned operationId held hheld hopen
    have hne : held.container ≠ id := by
      intro heq
      rw [heq] at hview
      obtain ⟨record, hget, rfl⟩ := Option.map_eq_some_iff.mp hview
      obtain ⟨_, hentry, heq'⟩ := Option.map_eq_some_iff.mp hpending
      obtain ⟨reservation, hreservation, rfl⟩ := Option.map_eq_some_iff.mp hentry
      obtain ⟨operation, hoperation, rfl⟩ := Option.map_eq_some_iff.mp hheld
      have heq' : reservation.operationId = operationId := heq'
      have hdeleted : operation.phase = .storeDeleted := by
        simpa [StoreCall.keepsPairs, hget, hreservation, heq', hoperation] using hkeeps
      simp [LifecycleOperation.view, hdeleted] at hopen
    rw [hrow, Function.update_of_ne hne]
    exact ⟨view, hview, hpending⟩

theorem Paired.acknowledge (h : db.Paired)
    (hkeeps : (StoreCall.acknowledgeMutation operationId).keepsPairs db = true)
    (hrow : db'.row = db.row) (hop : db'.operation = Function.update db.operation operationId none) :
    db'.Paired := by
  constructor
  · intro id view other g hview hpending
    rw [hrow] at hview
    have hne : other ≠ operationId := by
      intro heq
      obtain ⟨record, hget, rfl⟩ := Option.map_eq_some_iff.mp hview
      obtain ⟨reservation, hreservation, heq'⟩ := Option.map_eq_some_iff.mp hpending
      have hentry := List.all_eq_true.mp hkeeps (id, record) (db.containers.get_eq_some_iff.mp hget)
      have hid : reservation.operationId = operationId := by
        rw [← heq]
        exact congrArg Prod.fst heq'
      simp [hreservation, hid] at hentry
    rw [hop, Function.update_of_ne hne]
    exact h.reserved id view other g hview hpending
  · intro other held hheld hopen
    rw [hop, Function.update_apply] at hheld
    split at hheld
    · cases hheld
    · rw [hrow]
      exact h.owned other held hheld hopen

theorem Paired.step (h : db.Paired) (hallowed : call.allowed db = true)
    (hkeeps : call.keepsPairs db = true) : (db.step call).Paired := by
  unfold Database.step
  split
  next db' happly =>
    cases StoreCall.step_of_apply happly with
    | keep hrow hop => exact paired_of_views hrow hop h
    | write id generation _ hfree hrow hop =>
      exact h.write (fun view hview => (hfree view hview).1) hrow hop
    | reserve id operationId generation reserved hfree hsame hnew hrow hop =>
      rw [hsame hallowed] at hrow
      exact h.reserve (fun view hview => (hfree view hview).1) hnew hrow hop
    | reReserve id operationId generation isOpen hfree hheld hrow hop =>
      exact h.reReserve hfree hheld hrow hop
    | effect id operationId view hpending hid hrow _ hop => exact h.effect hpending hid hrow hop
    | delete id operationId view held hpending hid _ hrow hop =>
      exact h.drop hpending hid (fun _ hview => by cases hview)
        (fun held hheld => by cases hheld; rfl) hrow hop
    | finish id operationId generation hpending hrow hop =>
      exact h.drop hpending rfl (fun view hview => by cases hview; rfl)
        (fun held hheld => by cases hheld) hrow hop
    | remove id hrow hop => exact h.remove hkeeps hrow hop
    | acknowledge operationId hrow hop => exact h.acknowledge hkeeps hrow hop
  next => exact h

theorem Paired.keepsPairs_of_step (h : db.Paired) (h' : (db.step call).Paired) :
    call.keepsPairs db = true := by
  cases call with
  | remove id =>
    simp only [StoreCall.keepsPairs, Option.all_eq_true, decide_eq_true_eq]
    intro record hget reservation hreservation operation hoperation
    by_contra hopen
    obtain ⟨-, isOpen, hheld⟩ := h.reserved id record.view reservation.operationId
      reservation.generation (row_eq_some hget) (view_of_pending hreservation)
    have hheld' : (db.step (.remove id)).operation reservation.operationId =
        some operation.view := operation_eq_some hoperation
    have hcontainer : operation.view.container = id := by
      rw [operation_eq_some hoperation] at hheld
      exact congrArg OperationView.container (Option.some.inj hheld)
    obtain ⟨view, hview, -⟩ := h'.owned reservation.operationId operation.view hheld'
      (by simpa [LifecycleOperation.view] using hopen)
    have hrow : (db.step (.remove id)).row = Function.update db.row id none := by
      simp [Database.step, StoreCall.apply, Database.remove]
    rw [hrow, hcontainer, Function.update_self] at hview
    cases hview
  | acknowledgeMutation operationId =>
    simp only [StoreCall.keepsPairs, List.all_eq_true, decide_eq_true_eq]
    intro entry hentry hpending
    have hget := db.containers.get_eq_some_iff.mpr hentry
    obtain ⟨reservation, hreservation, hid⟩ := Option.map_eq_some_iff.mp hpending
    have hrow : db.row entry.1 = some entry.2.view := row_eq_some hget
    obtain ⟨-, isOpen, hheld⟩ := h'.reserved entry.1 entry.2.view reservation.operationId
      reservation.generation hrow (view_of_pending hreservation)
    have hop : (db.step (.acknowledgeMutation operationId)).operation =
        Function.update db.operation operationId none := by
      simp [Database.step, StoreCall.apply, Database.acknowledgeMutation]
    rw [hop, hid, Function.update_self] at hheld
    cases hheld
  | _ => rfl

/-! ## The claim of a state -/

def ReservationsBacked (db : Database) : Prop :=
  ∀ id record reservation, db.containers.get id = some record →
    record.pendingMutation = some reservation →
    reservation.generation = record.mutationGeneration ∧
      ∃ operation, db.operations reservation.operationId = some operation ∧
        operation.containerId = id ∧ operation.generation = record.mutationGeneration

def OperationsOwned (db : Database) : Prop :=
  ∀ operationId operation, db.operations operationId = some operation →
    operation.phase ≠ .storeDeleted →
    ∃ record reservation, db.containers.get operation.containerId = some record ∧
      record.pendingMutation = some reservation ∧ reservation.operationId = operationId

/-- Reservations are consistent, so a container has one open operation at most, and each open
operation can be finished, by either way of ending it. -/
structure Consistent (db : Database) : Prop where
  backed : ReservationsBacked db
  owned : OperationsOwned db
  one_open : ∀ operationId operation operationId' operation',
    db.operations operationId = some operation → operation.phase ≠ .storeDeleted →
    db.operations operationId' = some operation' → operation'.phase ≠ .storeDeleted →
    operation.containerId = operation'.containerId → operationId = operationId'
  can_finish : ∀ operationId operation, db.operations operationId = some operation →
    operation.phase ≠ .storeDeleted →
    (∃ db', db.finishMutation operation.containerId operationId = .ok db' ∧
      db'.operations operationId = none) ∧
    ∃ db', db.deleteForMutation operation.containerId operationId = .ok db' ∧
      db'.containers.get operation.containerId = none

theorem consistent_iff_paired : Consistent db ↔ db.Paired := by
  constructor
  · intro h
    constructor
    · intro id view operationId generation hview hpending
      obtain ⟨record, hget, rfl⟩ := Option.map_eq_some_iff.mp hview
      obtain ⟨reservation, hreservation, heq⟩ := Option.map_eq_some_iff.mp hpending
      cases heq
      obtain ⟨hgeneration, operation, hoperation, hcontainer, hsame⟩ :=
        h.backed id record reservation hget hreservation
      refine ⟨hgeneration, operation.view.isOpen, ?_⟩
      rw [operation_eq_some hoperation, LifecycleOperation.view, hcontainer, hsame]
      rfl
    · intro operationId held hheld hopen
      obtain ⟨operation, hoperation, rfl⟩ := Option.map_eq_some_iff.mp hheld
      obtain ⟨record, reservation, hget, hreservation, hid⟩ :=
        h.owned operationId operation hoperation
          (by simpa [LifecycleOperation.view] using hopen)
      refine ⟨record.view, row_eq_some hget, ?_⟩
      rw [view_of_pending hreservation, ← hid]
      rfl
  · intro h
    have hbacked : ReservationsBacked db := by
      intro id record reservation hget hreservation
      obtain ⟨hgeneration, isOpen, hheld⟩ := h.reserved id record.view reservation.operationId
        reservation.generation (row_eq_some hget) (view_of_pending hreservation)
      obtain ⟨operation, hoperation, heq⟩ := Option.map_eq_some_iff.mp hheld
      exact ⟨hgeneration, operation, hoperation, congrArg OperationView.container heq,
        congrArg OperationView.generation heq⟩
    have howned : OperationsOwned db := by
      intro operationId operation hoperation hopen
      obtain ⟨view, hview, hpending⟩ := h.owned operationId operation.view
        (operation_eq_some hoperation) (by simpa [LifecycleOperation.view] using hopen)
      obtain ⟨record, hget, rfl⟩ := Option.map_eq_some_iff.mp hview
      obtain ⟨_, hpending, hid⟩ := Option.map_eq_some_iff.mp hpending
      obtain ⟨reservation, hreservation, rfl⟩ := Option.map_eq_some_iff.mp hpending
      exact ⟨record, reservation, hget, hreservation, hid⟩
    refine ⟨hbacked, howned, ?_, ?_⟩
    · intro operationId operation operationId' operation' ho hopen ho' hopen' hsame
      obtain ⟨record, reservation, hget, hreservation, hid⟩ := howned _ _ ho hopen
      obtain ⟨record', reservation', hget', hreservation', hid'⟩ := howned _ _ ho' hopen'
      rw [hsame, hget'] at hget
      cases hget
      rw [hreservation] at hreservation'
      cases hreservation'
      rw [← hid, hid']
    · intro operationId operation hoperation hopen
      obtain ⟨record, reservation, hget, hreservation, hid⟩ := howned _ _ hoperation hopen
      have hgeneration := (hbacked _ _ _ hget hreservation).1
      constructor
      · refine ⟨(db.setRow { record with
          pendingMutation := none
          mutationGeneration := nextGeneration record.mutationGeneration }).deleteOperation
            operationId, ?_, by simp [deleteOperation]⟩
        simp only [finishMutation, hget, hreservation]
        exact if_neg (by simp [hid, hgeneration])
      · refine ⟨((db.setOperation operationId
          { operation with phase := .storeDeleted }).deleteRow operation.containerId).dropClaims
            operation.containerId none, ?_, by simp [dropClaims, deleteRow]⟩
        simp only [deleteForMutation, hget, hreservation, hoperation]
        exact if_neg (by simp [hid])

end Database

/-- Over every run from a new store in which reservations are created and acknowledged as the store
expects: reservations are consistent in all states exactly when every call keeps the pairs. -/
theorem reservations_consistent_iff (calls : List StoreCall)
    (hallowed : Runs.Along Database.step (fun db call => call.allowed db = true) .new calls) :
    Runs.Throughout Database.step Database.Consistent .new calls ↔
      Runs.Along Database.step (fun db call => call.keepsPairs db = true) .new calls := by
  have hgeneral : ∀ db : Database, db.Paired →
      Runs.Along Database.step (fun db call => call.allowed db = true) db calls →
      (Runs.Throughout Database.step Database.Consistent db calls ↔
        Runs.Along Database.step (fun db call => call.keepsPairs db = true) db calls) := by
    clear hallowed
    induction calls with
    | nil => exact fun db h _ => ⟨fun _ => trivial, fun _ => Database.consistent_iff_paired.mpr h⟩
    | cons call calls ih =>
      intro db h hallowed
      constructor
      · intro hall
        have hnext := Database.consistent_iff_paired.mp hall.2.head
        exact ⟨h.keepsPairs_of_step hnext, (ih _ hnext hallowed.2).mp hall.2⟩
      · intro hkeeps
        have hnext := h.step hallowed.1 hkeeps.1
        exact ⟨Database.consistent_iff_paired.mpr h, (ih _ hnext hallowed.2).mpr hkeeps.2⟩
  exact hgeneral .new .new hallowed

def removedWhileReserved : List StoreCall :=
  [.put webRecord,
    .reserveMutation (fun _ => none) "web" "created" 1 (.fill 16 7) "container.start",
    .remove "web"]

theorem removed_row_leaves_operation_open :
    ¬ ∀ calls : List StoreCall,
      Runs.Along Database.step (fun db call => call.allowed db = true) .new calls →
      Runs.Throughout Database.step Database.Consistent .new calls := by
  intro h
  have hallowed : Runs.Along Database.step (fun db call => call.allowed db = true) .new
      removedWhileReserved := by decide +kernel
  let last := removedWhileReserved.foldl Database.step .new
  have hlast : Database.Consistent last := (h removedWhileReserved hallowed).2.2.2
  have horphan : (last.operations (.fill 16 7)).any (fun operation =>
      operation.phase ≠ .storeDeleted &&
        (last.containers.get operation.containerId).isNone) = true := by decide +kernel
  cases hoperation : last.operations (.fill 16 7) with
  | none =>
    rw [hoperation] at horphan
    cases horphan
  | some operation =>
    rw [hoperation, Option.any_some, Bool.and_eq_true, decide_eq_true_eq] at horphan
    obtain ⟨record, reservation, hget, -, -⟩ := hlast.owned _ operation hoperation horphan.1
    rw [hget] at horphan
    cases horphan.2

theorem reservations_consistent_start_and_remove :
    Runs.Along Database.step (fun db call => call.allowed db = true) .new
      [.put webRecord,
        .reserveMutation (fun _ => none) "web" "created" 1 (.fill 16 7) "container.start",
        .setStatusForMutation (fun _ => none) "web" (.fill 16 7) "running",
        .finishMutation "web" (.fill 16 7), .remove "web"] ∧
    Runs.Throughout Database.step Database.Consistent .new
      [.put webRecord,
        .reserveMutation (fun _ => none) "web" "created" 1 (.fill 16 7) "container.start",
        .setStatusForMutation (fun _ => none) "web" (.fill 16 7) "running",
        .finishMutation "web" (.fill 16 7), .remove "web"] :=
  ⟨by decide +kernel, (reservations_consistent_iff _ (by decide +kernel)).mpr (by decide +kernel)⟩

end Ferrocrate.Container
