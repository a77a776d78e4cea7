import Ferrocrate.Volume.Store

/-! Which permits the executors of the volume store finish, and with which outcome. -/
namespace Ferrocrate.Volume
open Lib Lib.Program
open Authorization
open Witness (Digest WitnessOutcome Hasher)

inductive ExecutorCall where
  | create (plan : VolumeCreatePlan) (permit : SurfacePermit)
  | remove (name : String) (permit : SurfacePermit)
  | backup (name dest : String) (permit : SurfacePermit)
  | restore (name src : String) (permit : SurfacePermit)

def Found {F : Type} (host : VolumeHost F) (w : VolumeWorld F) (name : String)
    (record : VolumeRecord) : Prop :=
  ∃ row, w.store.rows.get name = some row ∧ volumeRecordFromRow host name row = .ok record

namespace ExecutorCall
variable {F : Type} (host : VolumeHost F) (sha256 : Hasher)

def permits : ExecutorCall → List SurfacePermit
  | create _ permit | remove _ permit | backup _ _ permit | restore _ _ permit => [permit]

def process : ExecutorCall → Process (VolumeWorld F) Moment Unit
  | create plan permit =>
    (createWithDriverAuthorized host sha256 plan permit).run.bind fun _ => .done ()
  | remove name permit => (removeAuthorized host sha256 name permit).run.bind fun _ => .done ()
  | backup name dest permit =>
    (backupAuthorized host sha256 name dest permit).run.bind fun _ => .done ()
  | restore name src permit =>
    (restoreAuthorized host sha256 name src permit).run.bind fun _ => .done ()

/-- What the call has changed: a row and the files behind it, the files at a path that is not the
store's, or the files of the volume. -/
def Committed (w : VolumeWorld F) (s' : Volumes F) : ExecutorCall → Prop
  | create plan _ => w.store.rows.get plan.name = none ∧
    ∃ driver path, drivers host plan.driver = some driver ∧
      driver.create host.root plan.name plan.driverOpts w.store.files = (.ok path, s'.files) ∧
      s'.rows = w.store.rows.insert plan.name
        (VolumeRecord.row host ⟨plan.name, path, plan.driver, plan.driverOpts, .empty, host.now⟩)
  | remove name _ => w.store.rows.get name ≠ none ∧ s'.rows = w.store.rows.erase name ∧
    removeIfPresent host (joined host.root name) w.store.files = (.ok (), s'.files)
  | backup name dest _ => s'.rows = w.store.rows ∧ ∃ record, Found host w name record ∧
    host.isPresent record.path w.store.files = true ∧
    host.archive record.path dest w.store.files = (.ok (), s'.files)
  | restore name src _ => s'.rows = w.store.rows ∧ ∃ record files, Found host w name record ∧
    host.createDirAll record.path w.store.files = (.ok (), files) ∧
    host.unpack src record.path files = (.ok (), s'.files)

def Settles (w : VolumeWorld F) : ExecutorCall → Prop
  | create plan permit =>
    validateExecution sha256 permit .volumeCreate .volume plan.name plan.generation = .ok ()
  | remove name permit => validateExecution sha256 permit .volumeDelete .volume name 1 = .ok () ∧
    (w.faults.head?.join = none → w.store.rows.get name ≠ none)
  | backup name _ permit => validateExecution sha256 permit .volumeBackup .volume name 1 = .ok ()
  | restore name _ permit => validateExecution sha256 permit .volumeRestore .volume name 1 = .ok ()

end ExecutorCall

section Executors
variable {F : Type} {host : VolumeHost F} {sha256 : Hasher} {w : VolumeWorld F}

/-! The store's operations have nothing to do with permits. -/

variable {α : Type}

theorem onFiles_journal (m : Program VolumeStoreError F α) (w : VolumeWorld F) :
    (onFiles m w).2.journal = w.journal := rfl

theorem quiet_files (m : Program VolumeStoreError F α) :
    Process.Acts Quiet (Task.atomically Moment.files (onFiles m)).run :=
  Task.acts_atomically ⟨rfl, onFiles_journal m⟩

theorem quiet_get (name : String) : Process.Acts Quiet (get host name).run :=
  Task.acts_atomically ⟨rfl, fun _ => PermitWorld.locked_journal ..⟩

theorem quiet_getPresent (name : String) : Process.Acts Quiet (getPresent host name).run := by
  refine Task.acts_bind (quiet_get name) fun record => ?_
  cases record with
  | none => trivial
  | some record => trivial

theorem quiet_backup (name dest : String) : Process.Acts Quiet (backup host name dest).run :=
  Task.acts_bind (quiet_getPresent name) fun _ => quiet_files _

theorem quiet_restore (name src : String) : Process.Acts Quiet (restore host name src).run :=
  Task.acts_bind (quiet_getPresent name) fun _ =>
    Task.acts_bind (quiet_files _) fun _ => quiet_files _

theorem quiet_remove (name : String) : Process.Acts Quiet (remove host name).run := by
  refine Task.acts_bind (quiet_get name) fun record => ?_
  cases record with
  | none => trivial
  | some record =>
    have hdelete : ∀ _ : Unit, Process.Acts Quiet (do
        Task.atomically (Moment.delete name) (PermitWorld.locked fun s : Volumes F =>
          .ok ((), { s with rows := s.rows.erase name }))
        return true : VolumeTask F Bool).run := fun _ =>
      Task.acts_bind (Task.acts_atomically ⟨rfl, fun _ => PermitWorld.locked_journal ..⟩) fun _ => trivial
    dsimp only
    split
    · exact Task.acts_bind (quiet_files _) hdelete
    · exact Task.acts_bind (quiet_files _) hdelete

variable {j : Witness.WitnessJournal}

theorem preserves_locked
    (f : Volumes F → Except VolumeStoreError (α × Volumes F)) :
    Preserves (fun w : VolumeWorld F => w.journal = j) (PermitWorld.locked f) := by
  intro w hw
  have hafter := (PermitWorld.locked_journal f w).trans hw
  exact (wp_iff ..).mpr ⟨fun _ _ => hafter, fun _ _ => hafter⟩

theorem preserves_createSection (name driver : String)
    (driverOpts : OrdMap String String) :
    Preserves (fun w : VolumeWorld F => w.journal = j)
      (createSection host name driver driverOpts) := by
  refine (preserves_locked _).bind fun present => (preserves_rejectIf _ _).bind fun _ => ?_
  refine (preserves_okOr _ _).bind fun driverImpl => Preserves.bind ?_ fun path => ?_
  · exact fun w hw => (wp_iff ..).mpr ⟨fun _ _ => hw, fun _ _ => hw⟩
  · exact (preserves_locked _).bind fun _ => preserves_pure _

theorem quiet_createWithDriver (name driver : String) (driverOpts : OrdMap String String) :
    Process.Acts Quiet (createWithDriver host name driver driverOpts).run :=
  Task.acts_ofExcept_bind fun _ _ => Task.acts_atomically
    ⟨rfl, fun w => after_of_wp (preserves_createSection name driver driverOpts w rfl)⟩

variable {permit : SurfacePermit}

theorem ends_finishAs {Q : Except VolumeStoreError Unit → VolumeWorld F →
      List (SurfacePermit × WitnessOutcome) → Prop}
    {outcome : WitnessOutcome}
    (h : ∀ journal, Q (.ok ()) { w with journal := journal } [(permit, outcome)]) :
    Ends sha256 Q (finishAs sha256 permit outcome).run w :=
  ends_finished rfl h

theorem executionCheck_ok_iff {action : Action} {name : String}
    {generation : UInt64} : executionCheck sha256 permit action name generation = .ok () ↔
      validateExecution sha256 permit action .volume name generation = .ok () := by
  rw [executionCheck]
  cases validateExecution sha256 permit action .volume name generation with
  | ok u => exact ⟨fun _ => rfl, fun _ => rfl⟩
  | error e => exact ⟨fun h => (by cases h), fun h => (by cases h)⟩

/-! What the store's operations have done when they return. -/

variable {w' : VolumeWorld F}

theorem run_locked {f : Volumes F → Except VolumeStoreError (α × Volumes F)} {a : α}
    (h : PermitWorld.locked f w = (.ok a, w')) :
    w.faults.head?.join = none ∧ f w.store = .ok (a, w'.store) := by
  have hok := PermitWorld.locked_ok (congrArg Prod.fst h)
  rwa [h] at hok

theorem run_onFiles {m : Program VolumeStoreError F α} {a : α} (h : onFiles m w = (.ok a, w')) :
    m w.store.files = (.ok a, w'.store.files) ∧ w'.store.rows = w.store.rows := by
  obtain ⟨ha, rfl⟩ := Prod.mk.inj h
  exact ⟨Prod.ext ha rfl, rfl⟩

theorem run_get {name : String} {found : Option VolumeRecord}
    (h : Process.run (get host name).run w = (.ok found, w')) :
    w'.store = w.store ∧ w.faults.head?.join = none ∧
    (found = none → w.store.rows.get name = none) ∧
    ∀ record ∈ found, Found host w name record := by
  rw [get, Task.run_atomically] at h
  obtain ⟨hfault, hget⟩ := run_locked h
  cases hrow : w.store.rows.get name with
  | none =>
    rw [hrow] at hget
    obtain ⟨rfl, hstore⟩ := Prod.mk.inj (Except.ok.inj hget)
    exact ⟨hstore.symm, hfault, fun _ => rfl, fun _ hrecord => by cases hrecord⟩
  | some row =>
    rw [hrow] at hget
    obtain ⟨record, hrecord, hget⟩ := Except.map_eq_ok.mp hget
    obtain ⟨rfl, hstore⟩ := Prod.mk.inj hget
    refine ⟨hstore.symm, hfault, fun h => (by cases h), fun _ hmem => ?_⟩
    obtain rfl := Option.some.inj hmem
    exact ⟨row, hrow, hrecord⟩

theorem run_getPresent {name : String} {record : VolumeRecord}
    (h : Process.run (getPresent host name).run w = (.ok record, w')) :
    w'.store = w.store ∧ Found host w name record := by
  obtain ⟨found, w₁, hget, h⟩ := Task.run_bind.mp h
  obtain ⟨hstore, -, -, hfound⟩ := run_get hget
  cases found with
  | none => cases h
  | some found =>
    cases h
    exact ⟨hstore, hfound _ rfl⟩

theorem run_backup {name dest : String} {permit : SurfacePermit}
    (h : Process.run (backup host name dest).run w = (.ok (), w')) :
    (ExecutorCall.backup name dest permit).Committed host w w'.store := by
  obtain ⟨record, w₁, hget, h⟩ := Task.run_bind.mp h
  obtain ⟨hstore, hfound⟩ := run_getPresent hget
  rw [Task.run_atomically] at h
  obtain ⟨harchive, hrows⟩ := run_onFiles h
  rw [hstore] at harchive hrows
  obtain ⟨files, _, hread, harchive⟩ := bind_eq_ok.mp harchive
  cases hread
  obtain ⟨_, _, hreject, harchive⟩ := bind_eq_ok.mp harchive
  obtain ⟨hpresent, rfl⟩ := rejectIf_eq_ok hreject
  exact ⟨hrows, record, hfound, Bool.eq_true_of_not_eq_false hpresent, harchive⟩

theorem run_restore {name src : String} {permit : SurfacePermit}
    (h : Process.run (restore host name src).run w = (.ok (), w')) :
    (ExecutorCall.restore name src permit).Committed host w w'.store := by
  obtain ⟨record, w₁, hget, h⟩ := Task.run_bind.mp h
  obtain ⟨hstore, hfound⟩ := run_getPresent hget
  obtain ⟨_, w₂, hcreate, h⟩ := Task.run_atomically_bind.mp h
  rw [Task.run_atomically] at h
  obtain ⟨hcreated, hrows⟩ := run_onFiles hcreate
  obtain ⟨hunpacked, hrows'⟩ := run_onFiles h
  rw [hstore] at hcreated hrows
  exact ⟨hrows'.trans hrows, record, _, hfound, hcreated, hunpacked⟩

theorem drivers_eq_some {name : String} {driver : VolumeDriver F}
    (h : drivers host name = some driver) : driver = localVolumeDriver host := by
  rw [drivers] at h
  split at h
  · exact (Option.some.inj h).symm
  · cases h

theorem run_createWithDriver {plan : VolumeCreatePlan} {permit : SurfacePermit}
    {record : VolumeRecord} (h : Process.run (createWithDriver host plan.name plan.driver
      plan.driverOpts).run w = (.ok record, w')) :
    (ExecutorCall.create plan permit).Committed host w w'.store := by
  obtain ⟨_, -, h⟩ := Task.run_ofExcept_bind.mp h
  rw [Task.run_atomically, createSection] at h
  obtain ⟨present, w₁, hpresent, h₁⟩ := bind_eq_ok.mp h
  obtain ⟨_, w₂, hreject, h₂⟩ := bind_eq_ok.mp h₁
  obtain ⟨driver, w₃, hlookup, h₃⟩ := bind_eq_ok.mp h₂
  obtain ⟨path, w₄, hpath, h₄⟩ := bind_eq_ok.mp h₃
  obtain ⟨_, w₅, hinsert, h₅⟩ := bind_eq_ok.mp h₄
  obtain ⟨-, hlooked⟩ := run_locked hpresent
  obtain ⟨-, hinserted⟩ := run_locked hinsert
  obtain ⟨hcreated, hrows⟩ := run_onFiles hpath
  obtain ⟨rfl, hstore⟩ := Prod.mk.inj (Except.ok.inj hlooked)
  obtain ⟨habsent, rfl⟩ := rejectIf_eq_ok hreject
  obtain ⟨hdriver, rfl⟩ := okOr_eq_ok hlookup
  cases h₅
  have hafter := congrArg Prod.snd (Except.ok.inj hinserted)
  dsimp only at hafter
  rw [← hstore] at hcreated hrows
  refine ⟨?_, driver, path, hdriver, ?_, ?_⟩
  · simpa [OrdMap.contains] using habsent
  · rw [← hafter]
    exact hcreated
  · rw [← hafter]
    exact congrArg (OrdMap.insert · _ _) hrows

theorem run_remove {name : String} {removed : Bool}
    (h : Process.run (remove host name).run w = (.ok removed, w')) :
    w.faults.head?.join = none ∧ if removed = true then
      w.store.rows.get name ≠ none ∧ w'.store.rows = w.store.rows.erase name ∧
      removeIfPresent host (joined host.root name) w.store.files = (.ok (), w'.store.files)
    else w.store.rows.get name = none := by
  obtain ⟨found, w₁, hget, h⟩ := Task.run_bind.mp h
  obtain ⟨hstore, hfault, hnone, hfound⟩ := run_get hget
  refine ⟨hfault, ?_⟩
  cases found with
  | none =>
    cases h
    exact hnone rfl
  | some record =>
    obtain ⟨row, hrow, hrecord⟩ := hfound record rfl
    have hname : record.name = name := by
      obtain ⟨_, -, hrecord⟩ := Except.bind_eq_ok.mp hrecord
      obtain ⟨_, -, hrecord⟩ := Except.bind_eq_ok.mp hrecord
      cases hrecord
      rfl
    -- a record of an unknown driver loses the same directory
    have hremoved : ∃ w₂ : VolumeWorld F,
        onFiles (removeIfPresent host (joined host.root name)) w₁ = (.ok (), w₂) ∧
        Process.run (do
          Task.atomically (Moment.delete name) (PermitWorld.locked fun s : Volumes F =>
            .ok ((), { s with rows := s.rows.erase name }))
          return true : VolumeTask F Bool).run w₂ = (.ok removed, w') := by
      dsimp only at h
      split at h
      · next driver hdriver =>
        obtain rfl := drivers_eq_some hdriver
        obtain ⟨_, w₂, hfiles, hdelete⟩ := Task.run_atomically_bind.mp h
        have hdir : (localVolumeDriver host).remove host.root record
            = removeIfPresent host (joined host.root name) := by rw [← hname]; rfl
        rw [hdir] at hfiles
        exact ⟨w₂, hfiles, hdelete⟩
      · obtain ⟨_, w₂, hfiles, h⟩ := Task.run_atomically_bind.mp h
        exact ⟨w₂, hfiles, h⟩
    obtain ⟨w₂, hfiles, h⟩ := hremoved
    obtain ⟨_, w₃, hdelete, h⟩ := Task.run_atomically_bind.mp h
    cases h
    obtain ⟨hgone, hrows⟩ := run_onFiles hfiles
    obtain ⟨-, herase⟩ := run_locked hdelete
    have hafter := congrArg Prod.snd (Except.ok.inj herase)
    dsimp only at hafter
    rw [if_pos rfl, ← hafter]
    rw [hstore] at hgone hrows
    exact ⟨fun h => (by rw [hrow] at h; cases h), congrArg (OrdMap.erase · name) hrows, hgone⟩

variable {m : VolumeTask F α} {onError : WitnessOutcome}

theorem ends_executed (hquiet : Process.Acts Quiet m.run) {settles : Prop}
    {committed : Volumes F → Prop} (herror : onError ≠ .succeeded)
    (hfails : ∀ e w', Process.run m.run w = (.error e, w') → settles)
    (hreturns : ∀ a w', Process.run m.run w = (.ok a, w') → (settles ↔ committed w'.store)) :
    Ends sha256 (fun _ w' fs => Finished [permit] settles committed w' fs)
      (executed sha256 permit m onError).run w := by
  refine ends_task_bind (ends_attempt ((ends_quiet hquiet).mono ?_))
  rintro r w' _ ⟨hr, hw', rfl⟩
  cases r with
  | ok a =>
    have hcommitted := hreturns a w' (Prod.ext hr.symm hw'.symm)
    refine ends_task_bind (ends_finishAs fun journal => ends_done ?_)
    by_cases hsettles : settles
    · exact finished_settled hsettles fun _ => hcommitted.mp hsettles
    · exact finished_vacuous hsettles fun h => hsettles (hcommitted.mpr h)
  | error e =>
    have hsettles := hfails e w' (Prod.ext hr.symm hw'.symm)
    refine ends_task_bind (ends_finishAs fun journal => ends_done ?_)
    exact finished_settled hsettles fun h => absurd h herror

theorem ends_checked_and (hquiet : Process.Acts Quiet m.run) {action : Action} {name : String}
    {generation : UInt64} {settles : Prop} {committed : Volumes F → Prop}
    (herror : onError ≠ .succeeded)
    (hfails : ∀ e w', Process.run m.run w = (.error e, w') → settles)
    (hreturns : ∀ a w', Process.run m.run w = (.ok a, w') → (settles ↔ committed w'.store)) :
    Ends sha256 (fun _ w' fs => Finished [permit]
        (validateExecution sha256 permit action .volume name generation = .ok () ∧ settles)
        committed w' fs)
      (do
        Task.ofExcept (executionCheck sha256 permit action name generation)
        executed sha256 permit m onError : VolumeTask F α).run w := by
  refine ends_ofExcept_bind (fun _ hcheck => ?_) fun e hcheck => finished_dropped fun hsettles => ?_
  · have hvalid := executionCheck_ok_iff.mp hcheck
    exact ends_executed hquiet herror (fun e w' h => ⟨hvalid, hfails e w' h⟩)
      fun a w' h => (and_iff_right hvalid).trans (hreturns a w' h)
  · rw [executionCheck_ok_iff.mpr hsettles.1] at hcheck
    cases hcheck

theorem ends_checked (hquiet : Process.Acts Quiet m.run) {action : Action} {name : String}
    {generation : UInt64} {committed : Volumes F → Prop} (herror : onError ≠ .succeeded)
    (hreturns : ∀ a w', Process.run m.run w = (.ok a, w') → committed w'.store) :
    Ends sha256 (fun _ w' fs => Finished [permit]
        (validateExecution sha256 permit action .volume name generation = .ok ()) committed w' fs)
      (do
        Task.ofExcept (executionCheck sha256 permit action name generation)
        executed sha256 permit m onError : VolumeTask F α).run w := by
  have h : Ends sha256 (fun _ w' fs => Finished [permit]
        (validateExecution sha256 permit action .volume name generation = .ok () ∧ True)
        committed w' fs)
      (do
        Task.ofExcept (executionCheck sha256 permit action name generation)
        executed sha256 permit m onError : VolumeTask F α).run w :=
    ends_checked_and hquiet herror (fun _ _ _ => trivial) fun a w' h =>
      iff_of_true trivial (hreturns a w' h)
  simpa only [and_true] using h

theorem ends_createWithDriverAuthorized (plan : VolumeCreatePlan) (permit : SurfacePermit) :
    Ends sha256 (fun _ w' fs => Finished [permit]
        (validateExecution sha256 permit .volumeCreate .volume plan.name plan.generation = .ok ())
        (fun s => (ExecutorCall.create plan permit).Committed host w s) w' fs)
      (createWithDriverAuthorized host sha256 plan permit).run w := by
  refine ends_ofExcept_bind (fun _ hcheck => ?_) fun e hcheck => finished_dropped fun hsettles => ?_
  · have hsettles := executionCheck_ok_iff.mp hcheck
    split
    · exact ends_task_bind (ends_finishAs fun journal => ends_done
        (finished_settled hsettles fun h => absurd h (by decide)))
    · exact ends_executed (quiet_createWithDriver ..) (by decide) (fun _ _ _ => hsettles)
        fun _ _ h => iff_of_true hsettles (run_createWithDriver h)
  · rw [executionCheck_ok_iff.mpr hsettles] at hcheck
    cases hcheck

theorem run_remove_missing {name : String} (hfault : w.faults.head?.join = none)
    (hrow : w.store.rows.get name = none) :
    ∃ w₁, Process.run (remove host name).run w = (.ok false, w₁) := by
  refine ⟨_, Task.run_atomically_bind.mpr ⟨none, { w with faults := w.faults.tail }, ?_, rfl⟩⟩
  rw [PermitWorld.locked, hfault, hrow]

theorem ends_removeAuthorized (name : String) (permit : SurfacePermit) :
    Ends sha256 (fun _ w' fs => Finished [permit]
        ((ExecutorCall.remove name permit).Settles sha256 w)
        (fun s => (ExecutorCall.remove name permit).Committed host w s) w' fs)
      (removeAuthorized host sha256 name permit).run w := by
  refine ends_checked_and (quiet_remove name) (by decide) (fun e w' h hfault hrow => ?_)
    fun removed w' h => ?_
  · obtain ⟨w₁, hmissing⟩ : ∃ w₁, Process.run (remove host name).run w = (.ok false, w₁) :=
      run_remove_missing hfault hrow
    rw [hmissing] at h
    cases h
  · obtain ⟨hfault, hremoved⟩ := run_remove h
    cases removed with
    | true =>
      rw [if_pos rfl] at hremoved
      exact iff_of_true (fun _ => hremoved.1) hremoved
    | false =>
      rw [if_neg Bool.false_ne_true] at hremoved
      exact iff_of_false (fun h => h hfault hremoved) fun h => h.1 hremoved

theorem ends_silent {Q : VolumeWorld F → List (SurfacePermit × WitnessOutcome) → Prop} (h : Ends sha256 (fun _ w fs => Q w fs) m.run w) :
    Ends sha256 (fun (_ : Unit) w fs => Q w fs) (m.run.bind fun _ => .done ()) w :=
  ends_bind (h.mono fun _ _ fs hq => ends_done ((List.append_nil fs).symm ▸ hq))

theorem ExecutorCall.ends (call : ExecutorCall) (w : VolumeWorld F) :
    Ends sha256 (fun _ w' fs => Finished call.permits (call.Settles sha256 w)
      (fun s => call.Committed host w s) w' fs) (call.process host sha256) w := by
  cases call with
  | create plan permit => exact ends_silent (ends_createWithDriverAuthorized plan permit)
  | remove name permit => exact ends_silent (ends_removeAuthorized name permit)
  | backup name dest permit =>
    exact ends_silent (ends_checked (quiet_backup name dest) (by decide) fun _ _ h => run_backup h)
  | restore name src permit =>
    exact ends_silent (ends_checked (quiet_restore name src) (by decide) fun _ _ h => run_restore h)

end Executors
end Ferrocrate.Volume
