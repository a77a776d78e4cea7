import Ferrocrate.Image.Deletion

/-! Which permits the executors of the image store finish, and with which outcome. -/
namespace Ferrocrate.Image
open Lib
open Authorization
open Witness (Digest WitnessOutcome Hasher)

inductive ExecutorCall where
  | putReference (plan : ImageReferenceWritePlan) (now : UInt64) (permit : SurfacePermit)
  | removeReference (reference digest : String) (permit : SurfacePermit)
  | executeDigestDelete (plan : ImageDeletePlan) (permits : List SurfacePermit)
  | pruneReferences (permits : List SurfacePermit) (selectedReferences : List String)
  | executeImageTag (plan : ImageTagPlan) (now : UInt64) (permit : SurfacePermit)

namespace ExecutorCall

def permits : ExecutorCall → List SurfacePermit
  | putReference _ _ permit | removeReference _ _ permit | executeImageTag _ _ permit => [permit]
  | executeDigestDelete _ permits | pruneReferences permits _ => permits

variable (sha256 : Hasher)

def process : ExecutorCall → Process ImageWorld Moment Unit
  | putReference plan now permit => silent (putReferenceAuthorized sha256 plan now permit)
  | removeReference reference digest permit =>
    silent (removeReferenceAuthorized sha256 reference digest permit)
  | executeDigestDelete plan permits => silent (executeDigestDeleteAuthorized sha256 plan permits)
  | pruneReferences permits selected => silent (pruneReferencesAuthorized sha256 permits selected)
  | executeImageTag plan now permit =>
    (executeImageTagAuthorized sha256 plan now permit).run.bind fun _ => .done ()

def Committed (t t' : Tables) : ExecutorCall → Prop
  | putReference plan now _ => t' = t.put (plan.record now)
  | removeReference reference digest _ => t.removeReferenceIfDigest reference digest = (true, t')
  | executeDigestDelete plan _ => t.deleteDigest plan = .ok (true, t')
  | pruneReferences _ selected =>
    (∀ reference ∈ selected, ∃ record ∈ t.listReferences, record.reference = reference) ∧
    t' = (t.prune selected).2
  | executeImageTag plan now _ => ∃ source, t.resolveReference plan.sourceReference = some source ∧
    t' = t.put (plan.record source now)

def Settles (w : ImageWorld) : ExecutorCall → Prop
  | putReference plan _ permit =>
    validateExecution sha256 permit .imageReferenceWrite .image plan.canonicalReference 1 = .ok ()
  | removeReference reference digest permit =>
    (validateExecution sha256 permit .imageDelete .image reference 1 = .ok () ∧
      permit.proof.imageDigest = some digest) ∧
    (w.faults.head?.join = none → ∃ row, w.store.imageReferences.get reference = some row ∧
      row.digest = digest)
  | executeDigestDelete _ _ => True
  | pruneReferences permits selected => w.faults.head?.join = none ∧
    ∃ records, selectPrune sha256 w.store.listReferences permits selected = .ok records
  | executeImageTag plan _ permit =>
    validateExecution sha256 permit .imageTag .image plan.targetReference plan.generation = .ok ()

end ExecutorCall

section Executors
variable {sha256 : Hasher} {w : ImageWorld} {α : Type}

theorem ends_silent {Q : ImageWorld → List (SurfacePermit × WitnessOutcome) → Prop}
    {ε : Type} {m : Task ε ImageWorld Moment α}
    (h : Ends sha256 (fun _ w fs => Q w fs) m.run w) :
    Ends sha256 (fun (_ : Unit) w fs => Q w fs) (m.run.bind fun _ => .done ()) w := by
  exact ends_bind (h.mono fun _ _ fs hq => ends_done ((List.append_nil fs).symm ▸ hq))

variable {permit : SurfacePermit} {outcome : WitnessOutcome}
  {Q : Except ImageStoreError Unit → ImageWorld → List (SurfacePermit × WitnessOutcome) → Prop}

theorem ends_finishAs
    (h : ∀ journal, Q (.ok ()) { w with journal := journal } [(permit, outcome)]) :
    Ends sha256 Q (finishAs sha256 permit outcome).run w :=
  ends_finished rfl h

theorem ends_finishTagAs {Q : Except ImageTaggingError Unit → ImageWorld →
      List (SurfacePermit × WitnessOutcome) → Prop}
    (h : ∀ journal, Q (.ok ()) { w with journal := journal } [(permit, outcome)]) :
    Ends sha256 Q (finishTagAs sha256 permit outcome).run w :=
  ends_finished rfl h

theorem ends_finish_throw {Q : Except ImageStoreError α → ImageWorld →
      List (SurfacePermit × WitnessOutcome) → Prop} {e : ImageStoreError}
    (h : ∀ journal, Q (.error e) { w with journal := journal } [(permit, outcome)]) :
    Ends sha256 Q (do finishAs sha256 permit outcome; throw e : ImageTask α).run w :=
  ends_task_bind (ends_finishAs fun journal => ends_done (h journal))

theorem ends_tag_throw {Q : Except ImageTaggingError α → ImageWorld →
      List (SurfacePermit × WitnessOutcome) → Prop} {e : ImageTaggingError}
    (h : ∀ journal, Q (.error e) { w with journal := journal } [(permit, outcome)]) :
    Ends sha256 Q (do finishTagAs sha256 permit outcome; throw e).run w :=
  ends_task_bind (ends_finishTagAs fun journal => ends_done (h journal))

theorem executionCheck_ok_iff {action : Action} {reference : String} :
    executionCheck sha256 permit action reference = .ok () ↔
      validateExecution sha256 permit action .image reference 1 = .ok () := by
  rw [executionCheck]
  cases validateExecution sha256 permit action .image reference 1 with
  | ok u => exact ⟨fun _ => rfl, fun _ => rfl⟩
  | error e => exact ⟨fun h => (by cases h), fun h => (by cases h)⟩

theorem ends_putReferenceAuthorized (plan : ImageReferenceWritePlan) (now : UInt64)
    (permit : SurfacePermit) :
    Ends sha256 (fun _ w' fs => Finished [permit]
        (validateExecution sha256 permit .imageReferenceWrite .image plan.canonicalReference 1
          = .ok ()) (· = w.store.put (plan.record now)) w' fs)
      (putReferenceAuthorized sha256 plan now permit).run w := by
  refine ends_ofExcept_bind (fun _ hcheck => ?_) fun e hcheck => ?_
  · have hsettles := executionCheck_ok_iff.mp hcheck
    split
    · exact ends_finish_throw fun journal => finished_settled hsettles fun h => absurd h (by decide)
    · refine ends_task_bind (ends_attempt (ends_section rfl (PermitWorld.locked_journal ..) ?_))
      dsimp only
      cases hput : (PermitWorld.locked (fun t => .ok ((), t.put (plan.record now))) w).1 with
      | ok u =>
        have hstore := congrArg Prod.snd (Except.ok.inj (PermitWorld.locked_ok hput).2)
        exact ends_finishAs fun journal => finished_settled hsettles fun _ => hstore.symm
      | error e => exact ends_finish_throw fun journal => finished_settled hsettles fun h => absurd h (by decide)
  · refine finished_dropped fun hsettles => ?_
    rw [executionCheck_ok_iff.mpr hsettles] at hcheck
    cases hcheck

theorem checkImageDelete_ok_iff {message reference digest : String} :
    checkImageDelete sha256 message reference digest permit = .ok () ↔
      validateExecution sha256 permit .imageDelete .image reference 1 = .ok () ∧
      permit.proof.imageDigest = some digest := by
  constructor
  · intro h
    have hauthorises := checkImageDelete_ok h
    exact ⟨(validateExecution_ok_iff ..).mpr ⟨hauthorises.1, hauthorises.2.1, hauthorises.2.2.1,
      hauthorises.2.2.2.1⟩, hauthorises.2.2.2.2⟩
  · rintro ⟨hvalid, hdigest⟩
    rw [checkImageDelete, executionCheck_ok_iff.mpr hvalid]
    exact if_neg (not_not.mpr hdigest)

theorem removeReferenceIfDigest_true_iff {t : Tables} {reference digest : String} :
    (t.removeReferenceIfDigest reference digest).1 = true ↔
      ∃ row, t.imageReferences.get reference = some row ∧ row.digest = digest := by
  rw [Tables.removeReferenceIfDigest]
  cases t.imageReferences.get reference with
  | none => simp
  | some row => by_cases hdigest : row.digest = digest <;> simp [hdigest]

theorem ends_removeReferenceAuthorized (reference digest : String) (permit : SurfacePermit) :
    Ends sha256 (fun _ w' fs => Finished [permit]
        ((validateExecution sha256 permit .imageDelete .image reference 1 = .ok () ∧
          permit.proof.imageDigest = some digest) ∧
          (w.faults.head?.join = none → ∃ row, w.store.imageReferences.get reference = some row ∧
            row.digest = digest))
        (fun t => w.store.removeReferenceIfDigest reference digest = (true, t)) w' fs)
      (removeReferenceAuthorized sha256 reference digest permit).run w := by
  refine ends_ofExcept_bind (fun _ hcheck => ?_) fun e hcheck => ?_
  · have hsettles := checkImageDelete_ok_iff.mp hcheck
    refine ends_task_bind (ends_attempt (ends_section rfl (PermitWorld.locked_journal ..) ?_))
    dsimp only
    cases hremove : (PermitWorld.locked
        (fun t => .ok (t.removeReferenceIfDigest reference digest)) w).1 with
    | ok removed =>
      obtain ⟨hfault, hstore⟩ := PermitWorld.locked_ok hremove
      have hresult := Except.ok.inj hstore
      refine ends_task_bind (ends_finishAs fun journal => ends_done ?_)
      cases removed with
      | true =>
        exact finished_settled ⟨hsettles, fun _ => removeReferenceIfDigest_true_iff.mp
          (congrArg Prod.fst hresult)⟩ fun _ => hresult
      | false =>
        -- the statement deletes no row, and the permit is finished as a success
        refine finished_vacuous (fun h => ?_) fun h => ?_
        · have htrue := removeReferenceIfDigest_true_iff.mpr (h.2 hfault)
          rw [hresult] at htrue
          cases htrue
        · rw [hresult] at h
          cases h
    | error e =>
      have hfault : w.faults.head?.join ≠ none := fun hnone => by
        cases PermitWorld.locked_error hremove hnone
      exact ends_finish_throw fun journal =>
        finished_settled ⟨hsettles, fun h => absurd h hfault⟩ fun h => absurd h (by decide)
  · refine finished_dropped fun hsettles => ?_
    rw [checkImageDelete_ok_iff.mpr hsettles.1] at hcheck
    cases hcheck

theorem ends_finishEach (permits : List SurfacePermit) (succeeded : Bool) :
    Ends sha256 (fun results w' fs => results = .ok (permits.map fun _ => .ok ()) ∧
        w'.store = w.store ∧
        fs = permits.map (·, if succeeded then WitnessOutcome.succeeded else .failed))
      (permits.mapM fun permit => (Task.attempt (finish sha256 permit succeeded) :
        ImageTask (Except ImageStoreError Unit))).run w := by
  induction permits generalizing w with
  | nil => exact ends_done ⟨rfl, rfl, rfl⟩
  | cons permit permits ih =>
    rw [List.mapM_cons]
    refine ends_task_bind (ends_attempt (ends_finishAs fun journal => ?_))
    refine ends_task_bind (ih.mono fun results w' fs hq => ?_)
    obtain ⟨rfl, hstore, rfl⟩ := hq
    refine ends_done ⟨rfl, hstore, ?_⟩
    rw [List.append_nil]
    rfl

variable {permits : List SurfacePermit}

theorem ends_finishImageDeletePermits {Q : Except ImageStoreError α → ImageWorld →
      List (SurfacePermit × WitnessOutcome) → Prop}
    {succeeded : Bool} {f : Unit → ImageTask α} {r : Except ImageStoreError α}
    (hf : (f ()).run = .done r)
    (h : ∀ w' : ImageWorld, w'.store = w.store → Q r w'
      (permits.map (·, if succeeded then .succeeded else .failed))) :
    Ends sha256 Q (finishImageDeletePermits sha256 permits succeeded >>= f).run w := by
  refine ends_task_bind (ends_task_bind ((ends_finishEach permits succeeded).mono ?_))
  rintro _ w' _ ⟨rfl, hstore, rfl⟩
  dsimp only
  generalize hfirst : List.findSome? _ _ = firstError
  cases firstError with
  | some e =>
    obtain ⟨x, hx, hxe⟩ := List.exists_of_findSome?_eq_some hfirst
    obtain ⟨_, -, rfl⟩ := List.mem_map.mp hx
    cases hxe
  | none =>
    refine ends_done ?_
    show Ends sha256 _ (f ()).run w'
    rw [hf, List.append_nil]
    refine ends_done ?_
    rw [List.append_nil]
    exact h w' hstore

theorem deleteDigest_removed {t t' : Tables} {plan : ImageDeletePlan} {removed : Bool}
    (hplan : plan.references ≠ []) (h : t.deleteDigest plan = .ok (removed, t')) :
    removed = true := by
  rw [Tables.deleteDigest] at h
  obtain ⟨hplanned, h⟩ := Except.ite_error_eq_ok.mp h
  obtain ⟨rfl, -⟩ := Prod.mk.inj (Except.ok.inj h)
  rw [not_not.mp hplanned, decide_eq_true (List.length_pos_iff.mpr hplan), Bool.true_or]

theorem ends_executeDigestDeleteAuthorized (plan : ImageDeletePlan) (permits : List SurfacePermit) :
    Ends sha256 (fun _ w' fs => Finished permits True
        (fun t => w.store.deleteDigest plan = .ok (true, t)) w' fs)
      (executeDigestDeleteAuthorized sha256 plan permits).run w := by
  have hfailed : ∀ (w' : ImageWorld), Finished permits True
      (fun t => w.store.deleteDigest plan = .ok (true, t)) w'
      (permits.map (·, WitnessOutcome.failed)) :=
    fun w' => finished_settled trivial fun h => absurd h (by decide)
  rw [executeDigestDeleteAuthorized]
  split
  · exact ends_finishImageDeletePermits rfl fun w' _ => hfailed w'
  next hplan =>
  split
  · exact ends_finishImageDeletePermits rfl fun w' _ => hfailed w'
  dsimp only
  split
  · exact ends_finishImageDeletePermits rfl fun w' _ => hfailed w'
  refine ends_task_bind (ends_attempt (ends_section rfl (PermitWorld.locked_journal ..) ?_))
  dsimp only
  cases hdelete : (PermitWorld.locked (fun t => t.deleteDigest plan) w).1 with
  | ok removed =>
    refine ends_finishImageDeletePermits rfl fun w' hstore => finished_settled trivial fun _ => ?_
    have hdeleted := (PermitWorld.locked_ok hdelete).2
    rw [deleteDigest_removed hplan hdeleted] at hdeleted
    rw [hstore]
    exact hdeleted
  | error e => exact ends_finishImageDeletePermits rfl fun w' _ => hfailed w'

theorem ends_forM_finish
    (h : ∀ w' : ImageWorld, w'.store = w.store → Q (.ok ()) w' (permits.map (·, outcome))) :
    Ends sha256 Q (permits.forM fun permit => finishAs sha256 permit outcome).run w := by
  induction permits generalizing w Q with
  | nil => exact ends_done (h w rfl)
  | cons permit permits ih =>
    exact ends_task_bind (ends_finishAs fun journal => ih fun w' hstore => h w' hstore)

theorem selectPrune_names {records selected : List ImageRecord}
    {names : List String} (h : selectPrune sha256 records permits names = .ok selected) :
    selected.map (·.reference) = names ∧ selected.length = permits.length ∧
    ∀ record ∈ selected, record ∈ records := by
  rw [selectPrune] at h
  split at h
  · cases h
  next hlength =>
    have hlength : names.length = permits.length := not_not.mp hlength
    have hzip : (names.zip permits).map Prod.fst = names := List.map_fst_zip (le_of_eq hlength)
    have hall : List.Forall₂ (fun record (pair : String × SurfacePermit) =>
        record ∈ records ∧ pair.1 = record.reference) selected (names.zip permits) := by
      apply List.Forall₂.flip
      refine (Except.mapM_eq_ok h).imp fun pair record hpair => ?_
      obtain ⟨reference, permit⟩ := pair
      cases hfind : records.find? fun record => record.reference = reference with
      | none =>
        simp only [hfind] at hpair
        cases hpair
      | some found =>
        simp only [hfind] at hpair
        obtain ⟨_, -, hreturn⟩ := Except.bind_eq_ok.mp hpair
        obtain rfl := Except.ok.inj hreturn
        have hreference := List.find?_some hfind
        exact ⟨List.mem_of_find?_eq_some hfind, (of_decide_eq_true hreference).symm⟩
    obtain ⟨hlisted, hall⟩ := (List.forall₂_and_left _ _).mp hall
    have hnames : (names.zip permits).map Prod.fst = selected.map (·.reference) := by
      rw [← List.forall₂_eq_eq_eq, List.forall₂_map_left_iff, List.forall₂_map_right_iff]
      exact hall.flip
    refine ⟨hnames.symm.trans hzip, ?_, hlisted⟩
    rw [hall.length_eq, List.length_zip, hlength, min_self]

theorem ends_pruneReferencesAuthorized (permits : List SurfacePermit) (names : List String) :
    Ends sha256 (fun _ w' fs => Finished permits
        (w.faults.head?.join = none ∧
          ∃ records, selectPrune sha256 w.store.listReferences permits names = .ok records)
        (fun t => (∀ reference ∈ names, ∃ record ∈ w.store.listReferences,
          record.reference = reference) ∧ t = (w.store.prune names).2) w' fs)
      (pruneReferencesAuthorized sha256 permits names).run w := by
  refine ends_task_bind (ends_section rfl (PermitWorld.locked_journal ..) ?_)
  have hread : ∀ e, w.faults.head?.join = some e →
      PermitWorld.locked (fun t => (Except.ok t.listReferences : Except ImageStoreError _).map
        fun a => (a, t)) w = (.error e, { w with faults := w.faults.tail }) := by
    intro e he
    rw [PermitWorld.locked, he]
  cases hfault : w.faults.head?.join with
  | some e =>
    rw [hread e hfault]
    exact finished_dropped fun h => by cases h.1
  | none =>
    have hread' : PermitWorld.locked (fun t => (Except.ok t.listReferences :
        Except ImageStoreError _).map fun a => (a, t)) w
        = (.ok w.store.listReferences, { w with faults := w.faults.tail }) := by
      rw [PermitWorld.locked, hfault]
      rfl
    rw [hread']
    dsimp only
    refine ends_ofExcept_bind (fun selected hselect => ?_) fun e hselect => ?_
    · obtain ⟨hnames, hlength, hlisted⟩ := selectPrune_names hselect
      split
      next hempty =>
        rw [hempty, List.length_nil] at hlength
        obtain rfl := List.length_eq_zero_iff.mp hlength.symm
        refine ends_done (@finished_settled _ _ _ _ _ _ .failed ⟨rfl, selected, hselect⟩ ?_)
        exact fun h => absurd h (by decide)
      · refine ends_task_bind (ends_attempt (ends_section rfl (PermitWorld.locked_journal ..) ?_))
        dsimp only
        cases hprune : (PermitWorld.locked
            (fun t : Tables => .ok (t.prune (selected.map (·.reference)))) _).1 with
        | ok removed =>
          have hstore := congrArg Prod.snd (Except.ok.inj (PermitWorld.locked_ok hprune).2)
          refine ends_task_bind (ends_forM_finish fun w' hw' => ?_)
          refine ends_done ?_
          show Finished permits _ _ w' ([] ++ (_ ++ []))
          rw [List.append_nil]
          refine finished_settled ⟨rfl, selected, hselect⟩ fun _ => ⟨fun reference hmem => ?_, ?_⟩
          · rw [← hnames] at hmem
            obtain ⟨record, hrecord, rfl⟩ := List.mem_map.mp hmem
            exact ⟨record, hlisted record hrecord, rfl⟩
          · rw [hw', ← hnames]
            exact hstore.symm
        | error e =>
          refine ends_task_bind (ends_forM_finish fun w' _ => ?_)
          refine ends_done ?_
          show Finished permits _ _ w' ([] ++ (_ ++ []))
          rw [List.append_nil]
          exact finished_settled ⟨rfl, selected, hselect⟩ fun h => absurd h (by decide)
    · refine finished_dropped fun h => ?_
      obtain ⟨-, records, hrecords⟩ := h
      rw [hrecords] at hselect
      cases hselect

theorem ends_executeImageTagAuthorized (plan : ImageTagPlan) (now : UInt64)
    (permit : SurfacePermit) :
    Ends sha256 (fun _ w' fs => Finished [permit]
        (validateExecution sha256 permit .imageTag .image plan.targetReference plan.generation
          = .ok ())
        (fun t => ∃ source, w.store.resolveReference plan.sourceReference = some source ∧
          t = w.store.put (plan.record source now)) w' fs)
      (executeImageTagAuthorized sha256 plan now permit).run w := by
  refine ends_ofExcept_bind (fun _ hcheck => ?_) fun e hcheck => ?_
  · have hsettles : validateExecution sha256 permit .imageTag .image plan.targetReference
        plan.generation = .ok () := by
      cases hv : validateExecution sha256 permit .imageTag .image plan.targetReference
          plan.generation with
      | ok u => rfl
      | error e =>
        rw [hv] at hcheck
        cases hcheck
    split
    · exact ends_tag_throw fun journal => finished_settled hsettles fun h => absurd h (by decide)
    refine ends_task_bind (ends_attempt (ends_section rfl (PermitWorld.locked_journal ..) ?_))
    dsimp only
    split
    · exact ends_tag_throw fun journal => finished_settled hsettles fun h => absurd h (by decide)
    · exact ends_tag_throw fun journal => finished_settled hsettles fun h => absurd h (by decide)
    next source hresolve =>
      have hread := (PermitWorld.locked_ok hresolve).2
      split
      · exact ends_tag_throw fun journal => finished_settled hsettles fun h => absurd h (by decide)
      refine ends_task_bind (ends_attempt (ends_section rfl (PermitWorld.locked_journal ..) ?_))
      dsimp only
      obtain ⟨hsource, hsame⟩ := Prod.mk.inj (Except.ok.inj hread)
      split
      next u hput =>
        have hstore := congrArg Prod.snd (Except.ok.inj (PermitWorld.locked_ok hput).2)
        refine ends_finishTagAs fun journal => finished_settled hsettles fun _ => ?_
        exact ⟨source, hsource, hstore.symm.trans (congrArg (Tables.put · _) hsame.symm)⟩
      · exact ends_tag_throw fun journal => finished_settled hsettles fun h => absurd h (by decide)
  · refine finished_dropped fun hsettles => ?_
    rw [hsettles] at hcheck
    cases hcheck

theorem ExecutorCall.ends (call : ExecutorCall) (w : ImageWorld) :
    Ends sha256 (fun _ w' fs => Finished call.permits (call.Settles sha256 w)
      (call.Committed w.store) w' fs) (call.process sha256) w := by
  cases call with
  | putReference plan now permit => exact ends_silent (ends_putReferenceAuthorized plan now permit)
  | removeReference reference digest permit =>
    exact ends_silent (ends_removeReferenceAuthorized reference digest permit)
  | executeDigestDelete plan permits =>
    exact ends_silent (ends_executeDigestDeleteAuthorized plan permits)
  | pruneReferences permits selected =>
    exact ends_silent (ends_pruneReferencesAuthorized permits selected)
  | executeImageTag plan now permit =>
    exact ends_silent (ends_executeImageTagAuthorized plan now permit)

end Executors
end Ferrocrate.Image
