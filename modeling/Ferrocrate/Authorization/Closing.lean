import Ferrocrate.Authorization.Surface
import Ferrocrate.Lib.Process
import Ferrocrate.Witness.Journal.Run

/-! Executors of authorised operations: a store beside the journal of its permits, which permits
a run of an executor finishes, and what the journal holds about them afterwards. -/
namespace Ferrocrate.Authorization
open Lib Lib.Program
open Witness

/-- A store beside the journal of its permits. Each entry of `faults` is what goes wrong the next
time the store is locked, if anything does. -/
structure PermitWorld (ε S : Type) where
  store : S
  journal : WitnessJournal
  faults : List (Option ε)

/-- The lock is taken, or a fault stands in the way; what fails changes nothing. -/
def PermitWorld.locked {ε S α : Type} (f : S → Except ε (α × S)) : Program ε (PermitWorld ε S) α :=
  fun w =>
    let rest := { w with faults := w.faults.tail }
    match w.faults.head?.join with
    | some e => (.error e, rest)
    | none =>
      match f w.store with
      | .error e => (.error e, rest)
      | .ok (a, store) => (.ok a, { rest with store := store })

def PermitWorld.finished {δ ε S : Type} (sha256 : Hasher)
    (cause : SurfaceAuthorizationError → δ) (permit : SurfacePermit) (outcome : WitnessOutcome) :
    Program δ (PermitWorld ε S) Unit := fun w =>
  match completePermit sha256 permit outcome w.journal with
  | (.ok (), journal) => (.ok (), { w with journal := journal })
  | (.error e, journal) => (.error (cause e), { w with journal := journal })

theorem PermitWorld.locked_journal {ε S α : Type} (f : S → Except ε (α × S)) (w : PermitWorld ε S) :
    (PermitWorld.locked f w).2.journal = w.journal := by
  unfold PermitWorld.locked
  cases w.faults.head?.join with
  | some e => rfl
  | none => cases f w.store <;> rfl

theorem PermitWorld.locked_ok {ε S α : Type} {f : S → Except ε (α × S)} {w : PermitWorld ε S} {a : α}
    (h : (PermitWorld.locked f w).1 = .ok a) :
    w.faults.head?.join = none ∧ f w.store = .ok (a, (PermitWorld.locked f w).2.store) := by
  unfold PermitWorld.locked at h ⊢
  cases hfault : w.faults.head?.join with
  | some e =>
    rw [hfault] at h
    cases h
  | none =>
    rw [hfault] at h
    cases hf : f w.store with
    | error e =>
      rw [hf] at h
      cases h
    | ok r =>
      rw [hf] at h
      cases h
      exact ⟨rfl, rfl⟩

theorem PermitWorld.locked_error {ε S α : Type} {f : S → Except ε (α × S)} {w : PermitWorld ε S}
    {e : ε} (h : (PermitWorld.locked f w).1 = .error e) (hfault : w.faults.head?.join = none) :
    f w.store = .error e := by
  unfold PermitWorld.locked at h
  rw [hfault] at h
  cases hf : f w.store with
  | error e =>
    rw [hf] at h
    cases h
    rfl
  | ok r =>
    rw [hf] at h
    cases h

theorem PermitWorld.finished_journal {δ ε S : Type} (sha256 : Hasher)
    (cause : SurfaceAuthorizationError → δ) (permit : SurfacePermit) (outcome : WitnessOutcome)
    (w : PermitWorld ε S) :
    (PermitWorld.finished sha256 cause permit outcome w).2.journal
      = (completePermit sha256 permit outcome w.journal).2 := by
  unfold PermitWorld.finished
  generalize completePermit sha256 permit outcome w.journal = result
  obtain ⟨e | u, journal⟩ := result <;> rfl

class FinishLabel (L : Type) where
  finish? : L → Option (SurfacePermit × WitnessOutcome)

section Runs
variable (sha256 : Hasher) {δ ε S L α β : Type} [FinishLabel L]

def Appends (label : L) (w : PermitWorld ε S) : Prop :=
  ∀ finish ∈ FinishLabel.finish? label,
    (completePermit sha256 finish.1 finish.2 w.journal).1 = .ok ()

def NoAppendFails : Process (PermitWorld ε S) L α → PermitWorld ε S → Prop
  | .done _, _ => True
  | .act label update next, w => Appends sha256 label w ∧ NoAppendFails (next w) (update w)

instance (label : L) (w : PermitWorld ε S) : Decidable (Appends sha256 label w) :=
  inferInstanceAs (Decidable (∀ finish ∈ FinishLabel.finish? label,
    (completePermit sha256 finish.1 finish.2 w.journal).1 = .ok ()))

instance decidableNoAppendFails : (p : Process (PermitWorld ε S) L α) → (w : PermitWorld ε S) →
    Decidable (NoAppendFails sha256 p w)
  | .done _, _ => .isTrue trivial
  | .act label update next, w =>
    @instDecidableAnd _ _ (inferInstanceAs (Decidable (Appends sha256 label w)))
      (decidableNoAppendFails (next w) (update w))

def finishes : Process (PermitWorld ε S) L α → PermitWorld ε S → List (SurfacePermit × WitnessOutcome)
  | .done _, _ => []
  | .act label update next, w =>
    (FinishLabel.finish? label).toList ++ finishes (next w) (update w)

def Recorded : Process (PermitWorld ε S) L α → PermitWorld ε S → Prop
  | .done _, _ => True
  | .act label update next, w =>
    (update w).journal = (match FinishLabel.finish? label with
      | none => w.journal
      | some (permit, outcome) => (completePermit sha256 permit outcome w.journal).2) ∧
    Recorded (next w) (update w)

def Ends (Q : α → PermitWorld ε S → List (SurfacePermit × WitnessOutcome) → Prop)
    (p : Process (PermitWorld ε S) L α) (w : PermitWorld ε S) : Prop :=
  NoAppendFails sha256 p w → Recorded sha256 p w ∧ Q (p.run w).1 (p.run w).2 (finishes p w)

variable {sha256} {w : PermitWorld ε S} {p : Process (PermitWorld ε S) L α}
  {k : α → Process (PermitWorld ε S) L β}

theorem noAppendFails_bind :
    NoAppendFails sha256 (p.bind k) w ↔
      NoAppendFails sha256 p w ∧ NoAppendFails sha256 (k (p.run w).1) (p.run w).2 := by
  induction p generalizing w with
  | done a => exact ⟨fun h => ⟨trivial, h⟩, fun h => h.2⟩
  | act label update next ih => exact (and_congr_right fun _ => ih w).trans and_assoc.symm

theorem recorded_bind :
    Recorded sha256 (p.bind k) w ↔
      Recorded sha256 p w ∧ Recorded sha256 (k (p.run w).1) (p.run w).2 := by
  induction p generalizing w with
  | done a => exact ⟨fun h => ⟨trivial, h⟩, fun h => h.2⟩
  | act label update next ih => exact (and_congr_right fun _ => ih w).trans and_assoc.symm

theorem finishes_bind (p : Process (PermitWorld ε S) L α)
    (k : α → Process (PermitWorld ε S) L β) (w : PermitWorld ε S) :
    finishes (p.bind k) w = finishes p w ++ finishes (k (p.run w).1) (p.run w).2 := by
  induction p generalizing w with
  | done a => rfl
  | act label update next ih =>
    exact (congrArg (_ ++ ·) (ih w (update w))).trans (List.append_assoc ..).symm

theorem ends_bind {Q : β → PermitWorld ε S → List (SurfacePermit × WitnessOutcome) → Prop}
    (h : Ends sha256 (fun a w fs => Ends sha256 (fun b w fs' => Q b w (fs ++ fs')) (k a) w) p w) :
    Ends sha256 Q (p.bind k) w := by
  intro hfails
  obtain ⟨hfirst, hrest⟩ := noAppendFails_bind.mp hfails
  obtain ⟨hrecorded, hends⟩ := h hfirst
  obtain ⟨hrecorded', hq⟩ := hends hrest
  rw [finishes_bind, Process.run_bind]
  exact ⟨recorded_bind.mpr ⟨hrecorded, hrecorded'⟩, hq⟩

theorem ends_done {Q : α → PermitWorld ε S → List (SurfacePermit × WitnessOutcome) → Prop} {a : α} (h : Q a w []) :
    Ends sha256 Q (.done a : Process (PermitWorld ε S) L α) w :=
  fun _ => ⟨trivial, h⟩

theorem Ends.mono {Q Q' : α → PermitWorld ε S → List (SurfacePermit × WitnessOutcome) → Prop} (h : Ends sha256 Q p w)
    (hq : ∀ a w fs, Q a w fs → Q' a w fs) : Ends sha256 Q' p w :=
  fun hfails => ⟨(h hfails).1, hq _ _ _ (h hfails).2⟩

variable {Q : Except δ β → PermitWorld ε S → List (SurfacePermit × WitnessOutcome) → Prop}
  {f : α → Task δ (PermitWorld ε S) L β} {m : Task δ (PermitWorld ε S) L α}

theorem ends_task_bind (h : Ends sha256 (fun r w fs => match r with
      | .ok a => Ends sha256 (fun b w fs' => Q b w (fs ++ fs')) (f a).run w
      | .error e => Q (.error e) w fs) m.run w) : Ends sha256 Q (m >>= f).run w := by
  refine ends_bind (h.mono fun r w fs hr => ?_)
  cases r with
  | ok a => exact hr
  | error e => exact ends_done ((List.append_nil fs).symm ▸ hr)

theorem ends_ofExcept_bind
    {x : Except δ α}
    (hok : ∀ a, x = .ok a → Ends sha256 Q (f a).run w)
    (herror : ∀ e, x = .error e → Q (.error e) w []) :
    Ends sha256 Q (Task.ofExcept x >>= f).run w := by
  cases x with
  | ok a => exact hok a rfl
  | error e => exact ends_done (herror e rfl)

theorem ends_attempt {δ' : Type} {Q : Except δ' (Except δ α) → PermitWorld ε S →
      List (SurfacePermit × WitnessOutcome) → Prop} (h : Ends sha256 (fun r w fs => Q (.ok r) w fs) m.run w) :
    Ends sha256 Q (Task.attempt m).run w :=
  ends_bind (h.mono fun _ _ fs hr => ends_done ((List.append_nil fs).symm ▸ hr))

theorem ends_section
    {Q : Except δ α → PermitWorld ε S → List (SurfacePermit × WitnessOutcome) → Prop}
    {label : L} {m : Program δ (PermitWorld ε S) α}
    (hlabel : FinishLabel.finish? label = none) (hjournal : (m w).2.journal = w.journal)
    (h : Q (m w).1 (m w).2 []) : Ends sha256 Q (Task.atomically label m).run w := by
  intro _
  show (_ = (match FinishLabel.finish? label with
      | none => w.journal
      | some (permit, outcome) => (completePermit sha256 permit outcome w.journal).2) ∧ True) ∧
    Q _ _ ((FinishLabel.finish? label).toList ++ [])
  rw [hlabel]
  exact ⟨⟨hjournal, trivial⟩, h⟩

theorem ends_finished
    {Q : Except δ Unit → PermitWorld ε S → List (SurfacePermit × WitnessOutcome) → Prop}
    {label : L} {cause : SurfaceAuthorizationError → δ} {permit : SurfacePermit}
    {outcome : WitnessOutcome}
    (hlabel : FinishLabel.finish? label = some (permit, outcome))
    (h : ∀ journal, Q (.ok ()) { w with journal := journal } [(permit, outcome)]) :
    Ends sha256 Q
      (Task.atomically label (PermitWorld.finished sha256 cause permit outcome)).run w := by
  intro happends
  have hok : (completePermit sha256 permit outcome w.journal).1 = .ok () :=
    happends.1 (permit, outcome) hlabel
  show (_ = (match FinishLabel.finish? label with
      | none => w.journal
      | some (permit, outcome) => (completePermit sha256 permit outcome w.journal).2) ∧ True) ∧
    Q _ _ ((FinishLabel.finish? label).toList ++ [])
  rw [hlabel]
  refine ⟨⟨PermitWorld.finished_journal .., trivial⟩, ?_⟩
  show Q (PermitWorld.finished sha256 cause permit outcome w).1
    (PermitWorld.finished sha256 cause permit outcome w).2 [(permit, outcome)]
  unfold PermitWorld.finished
  generalize completePermit sha256 permit outcome w.journal = result at hok
  obtain ⟨r, journal⟩ := result
  cases hok
  exact h journal

/-- What a run has finished: every permit with one outcome, a success only over a committed
change, when it settles its permits; else it drops them, or records successes over no change. -/
def Finished (permits : List SurfacePermit) (settles : Prop) (committed : S → Prop)
    (w' : PermitWorld ε S) (fs : List (SurfacePermit × WitnessOutcome)) : Prop :=
  (settles → ∃ outcome, fs = permits.map (·, outcome) ∧
    (outcome = .succeeded → committed w'.store)) ∧
  (¬settles → fs = [] ∨ fs = permits.map (·, .succeeded) ∧ ¬committed w'.store)

section Finished
variable {permits : List SurfacePermit} {settles : Prop} {committed : S → Prop}
  {w' : PermitWorld ε S}

theorem finished_settled {outcome : WitnessOutcome} (hsettles : settles)
    (hcommitted : outcome = .succeeded → committed w'.store) :
    Finished permits settles committed w' (permits.map (·, outcome)) :=
  ⟨fun _ => ⟨outcome, rfl, hcommitted⟩, fun hnot => absurd hsettles hnot⟩

theorem finished_dropped (hnot : ¬settles) : Finished permits settles committed w' [] :=
  ⟨fun hsettles => absurd hsettles hnot, fun _ => .inl rfl⟩

theorem finished_vacuous (hnot : ¬settles) (hcommitted : ¬committed w'.store) :
    Finished permits settles committed w' (permits.map (·, .succeeded)) :=
  ⟨fun hsettles => absurd hsettles hnot, fun _ => .inr ⟨rfl, hcommitted⟩⟩

end Finished

def Quiet (label : L) (update : PermitWorld ε S → PermitWorld ε S) : Prop :=
  FinishLabel.finish? label = none ∧ ∀ w, (update w).journal = w.journal

theorem ends_quiet (hacts : p.Acts Quiet) :
    Ends sha256 (fun a w' fs => a = (p.run w).1 ∧ w' = (p.run w).2 ∧ fs = []) p w := by
  induction p generalizing w with
  | done a => exact ends_done ⟨rfl, rfl, rfl⟩
  | act label update next ih =>
    intro hfails
    obtain ⟨⟨hlabel, hjournal⟩, hnext⟩ := hacts
    obtain ⟨hrecorded, -, -, hfinishes⟩ := ih w (hnext w) hfails.2
    rw [Recorded, finishes, hlabel]
    exact ⟨⟨hjournal w, hrecorded⟩, rfl, rfl, hfinishes⟩

end Runs

section Journal
variable (sha256 : Hasher) (config : JournalConfig)

structure Issued (permit : SurfacePermit) : Prop where
  required : ∃ intent, permit.durability = .required intent ∧ intent.operationId = permit.operation
  template : permit.template.requestId = permit.operation

def Allowed (l : Ledger) (permit : SurfacePermit) : Prop :=
  ∃ state, l.operations permit.operation = some state ∧ state.state = stateAllowed

/-- The operation of the permit stood at ALLOWED and has left it, and the journal has one new
record of it, an outcome that is a success only if the change was committed. -/
structure Closed (l l' : Ledger) (permit : SurfacePermit) (committed : Prop) : Prop where
  allowed : Allowed l permit
  record : ∃ record, (l'.entries.drop l.entries.length).filter
      (fun r => r.requestId = permit.operation) = [record] ∧ record.stage = .outcome ∧
    (record.outcome = .succeeded → committed)
  left : ∃ state, l'.operations permit.operation = some state ∧ state.state ≠ stateAllowed

inductive Closes : Ledger → List (SurfacePermit × WitnessOutcome) → Ledger → Prop where
  | nil (l : Ledger) : Closes l [] l
  | cons {l l' l'' : Ledger} {epoch : UInt64} {permit : SurfacePermit} {outcome : WitnessOutcome}
      {fs : List (SurfacePermit × WitnessOutcome)} (issued : Issued permit)
      (completed : Journal.Completed sha256 config epoch permit.operation
        (permit.outcomeRecord sha256 outcome) l l') (rest : Closes l' fs l'') :
      Closes l ((permit, outcome) :: fs) l''

variable {sha256 config} {l l' : Ledger} {fs : List (SurfacePermit × WitnessOutcome)}

def RecordOf (finish : SurfacePermit × WitnessOutcome) (record : WitnessRecord) : Prop :=
  record.requestId = finish.1.operation ∧ record.stage = .outcome ∧ record.outcome = finish.2

theorem Closes.entries (h : Closes sha256 config l fs l') :
    ∃ records, l'.entries = l.entries ++ records ∧ List.Forall₂ RecordOf fs records := by
  induction h with
  | nil l => exact ⟨[], (List.append_nil _).symm, .nil⟩
  | cons issued completed rest ih =>
    obtain ⟨records, hentries, hrecords⟩ := ih
    rw [completed.entries, List.append_assoc] at hentries
    exact ⟨_, hentries, .cons ⟨issued.template, rfl, rfl⟩ hrecords⟩

theorem Closes.stays (h : Closes sha256 config l fs l') {id : OperationId}
    (hleft : ∃ state, l.operations id = some state ∧ state.state ≠ stateAllowed) :
    ∃ state, l'.operations id = some state ∧ state.state ≠ stateAllowed := by
  induction h with
  | nil l => exact hleft
  | @cons l l' l'' epoch permit outcome fs issued completed rest ih =>
    refine ih ?_
    by_cases hid : id = permit.operation
    · exact hid ▸ completed.closed
    · rw [completed.others id hid]
      exact hleft

variable {finish : SurfacePermit × WitnessOutcome}

theorem Closes.left (h : Closes sha256 config l fs l')
    (hfinish : finish ∈ fs) :
    ∃ state, l'.operations finish.1.operation = some state ∧ state.state ≠ stateAllowed := by
  induction h with
  | nil l => cases hfinish
  | cons issued completed rest ih =>
    rcases List.mem_cons.mp hfinish with rfl | hrest
    · exact rest.stays completed.closed
    · exact ih hrest

theorem Closes.allowed (h : Closes sha256 config l fs l') (hnodup : (fs.map (·.1.operation)).Nodup)
    {finish : SurfacePermit × WitnessOutcome} (hfinish : finish ∈ fs) : Allowed l finish.1 := by
  induction h with
  | nil l => cases hfinish
  | @cons l l' l'' epoch permit outcome fs issued completed rest ih =>
    obtain ⟨hnot, hnodup⟩ := List.nodup_cons.mp hnodup
    rcases List.mem_cons.mp hfinish with rfl | hrest
    · exact completed.before
    · have hne : finish.1.operation ≠ permit.operation :=
        fun heq => hnot (List.mem_map.mpr ⟨finish, hrest, heq⟩)
      have hallowed := ih hnodup hrest
      rwa [Allowed, completed.others _ hne] at hallowed

variable {records : List WitnessRecord}

theorem exists_recordOf (h : List.Forall₂ RecordOf fs records)
    {record : WitnessRecord} (hrecord : record ∈ records) : ∃ finish ∈ fs, RecordOf finish record := by
  induction h with
  | nil => cases hrecord
  | @cons f r fs records hf hrest ih =>
    rcases List.mem_cons.mp hrecord with rfl | hmem
    · exact ⟨f, List.mem_cons_self, hf⟩
    · obtain ⟨f', hf', hr⟩ := ih hmem
      exact ⟨f', List.mem_cons_of_mem f hf', hr⟩

theorem filter_recordOf (h : List.Forall₂ RecordOf fs records)
    (hnodup : (fs.map (·.1.operation)).Nodup)
    (hfinish : finish ∈ fs) :
    ∃ record, records.filter (fun r => r.requestId = finish.1.operation) = [record] ∧
      RecordOf finish record := by
  induction h with
  | nil => cases hfinish
  | @cons f r fs records hf hrest ih =>
    obtain ⟨hnot, hnodup⟩ := List.nodup_cons.mp hnodup
    rcases List.mem_cons.mp hfinish with rfl | hmem
    · refine ⟨r, ?_, hf⟩
      refine (List.filter_cons_of_pos (p := fun r : WitnessRecord => r.requestId = finish.1.operation)
        (decide_eq_true hf.1)).trans ?_
      rw [List.filter_eq_nil_iff.mpr]
      intro r' hr' heq
      obtain ⟨f', hf', hrecord⟩ := exists_recordOf hrest hr'
      exact hnot (List.mem_map.mpr ⟨f', hf', hrecord.1.symm.trans (of_decide_eq_true heq)⟩)
    · obtain ⟨record, hfilter, hrecord⟩ := ih hnodup hmem
      refine ⟨record, ?_, hrecord⟩
      refine (List.filter_cons_of_neg ?_).trans hfilter
      intro heq
      exact hnot (List.mem_map.mpr ⟨finish, hmem, (of_decide_eq_true heq).symm.trans hf.1⟩)

variable {outcome : WitnessOutcome} {permit : SurfacePermit}

theorem Closes.closed (h : Closes sha256 config l fs l') (hnodup : (fs.map (·.1.operation)).Nodup) (hmem : (permit, outcome) ∈ fs)
    {committed : Prop} (hcommitted : outcome = .succeeded → committed) :
    Closed l l' permit committed where
  allowed := h.allowed hnodup hmem
  record := by
    obtain ⟨records, hentries, hrecords⟩ := h.entries
    obtain ⟨record, hfilter, -, hstage, houtcome⟩ := filter_recordOf hrecords hnodup hmem
    rw [hentries, List.drop_left]
    exact ⟨record, hfilter, hstage, fun hsucceeded => hcommitted (houtcome.symm.trans hsucceeded)⟩
  left := h.left hmem

theorem complete_completed (intent : DurableIntent) (record : WitnessRecord) {j : WitnessJournal}
    (h : Refines sha256 config l j) :
    wp (Journal.complete sha256 intent record)
      (fun _ j' => ∃ l', Journal.Completed sha256 config j.epoch intent.operationId record l l' ∧
        Refines sha256 config l' j') (fun _ _ => True) j := by
  rw [Journal.complete, wp_bind, wp_get]
  exact wp_mono (Journal.completeAt_completed j.epoch intent record h) (fun _ _ h => h)
    fun _ _ _ => trivial

theorem completePermit_completed (hissued : Issued permit) {j : WitnessJournal} (h : Refines sha256 config l j)
    (hok : (completePermit sha256 permit outcome j).1 = .ok ()) :
    ∃ epoch l', Journal.Completed sha256 config epoch permit.operation
        (permit.outcomeRecord sha256 outcome) l l' ∧
      Refines sha256 config l' (completePermit sha256 permit outcome j).2 := by
  obtain ⟨intent, hrequired, hoperation⟩ := hissued.required
  have hwp := complete_completed intent (permit.outcomeRecord sha256 outcome) h
  simp only [completePermit, hrequired] at hok ⊢
  rw [wp] at hwp
  generalize Journal.complete sha256 intent (permit.outcomeRecord sha256 outcome) j
    = result at hok hwp
  obtain ⟨e | u, j'⟩ := result
  · cases hok
  · obtain ⟨l', hcompleted, hj⟩ := hwp
    exact ⟨j.epoch, l', hoperation ▸ hcompleted, hj⟩

theorem closes_of_run {ε S L α : Type} [FinishLabel L] {p : Process (PermitWorld ε S) L α}
    {w : PermitWorld ε S} (hrecorded : Recorded sha256 p w) (hfails : NoAppendFails sha256 p w)
    (h : Refines sha256 config l w.journal) (hissued : ∀ finish ∈ finishes p w, Issued finish.1) :
    ∃ l', Refines sha256 config l' (p.run w).2.journal ∧
      Closes sha256 config l (finishes p w) l' := by
  induction p generalizing w l with
  | done a => exact ⟨l, h, .nil l⟩
  | act label update next ih =>
    have hjournal := hrecorded.1
    have hrest := fun finish hfinish => hissued finish (List.mem_append_right _ hfinish)
    cases hlabel : FinishLabel.finish? label with
    | none =>
      rw [hlabel] at hjournal
      have hsame : (update w).journal = w.journal := hjournal
      obtain ⟨l', hj, hcloses⟩ := ih w hrecorded.2 hfails.2 (hsame ▸ h) hrest
      refine ⟨l', hj, ?_⟩
      rw [finishes, hlabel]
      exact hcloses
    | some finish =>
      rw [hlabel] at hjournal
      have hafter : (update w).journal
        = (completePermit sha256 finish.1 finish.2 w.journal).2 := hjournal
      have hok := hfails.1 finish hlabel
      have hissuedFirst : Issued finish.1 :=
        hissued finish (List.mem_append_left _ (by rw [hlabel]; exact List.mem_singleton_self _))
      obtain ⟨epoch, l₁, hcompleted, hj₁⟩ := completePermit_completed hissuedFirst h hok
      obtain ⟨l', hj, hcloses⟩ := ih w hrecorded.2 hfails.2 (hafter ▸ hj₁) hrest
      refine ⟨l', hj, ?_⟩
      rw [finishes, hlabel]
      exact .cons hissuedFirst hcompleted hcloses

theorem Ends.closed_iff {ε S L α : Type} [FinishLabel L] {p : Process (PermitWorld ε S) L α}
    {w : PermitWorld ε S} {permits : List SurfacePermit} {settles : Prop} {committed : S → Prop}
    (hends : Ends sha256 (fun _ w' fs => Finished permits settles committed w' fs) p w)
    (h : Refines sha256 config l w.journal) (hissued : ∀ permit ∈ permits, Issued permit)
    (hnodup : (permits.map (·.operation)).Nodup) (hfails : NoAppendFails sha256 p w) :
    (∃ l', Refines sha256 config l' (p.run w).2.journal ∧
      ∀ permit ∈ permits, Closed l l' permit (committed (p.run w).2.store)) ↔
      settles ∨ permits = [] := by
  obtain ⟨hrecorded, hsettled, hdropped⟩ := hends hfails
  by_cases hsettles : settles
  · obtain ⟨outcome, hfinishes, hcommitted⟩ := hsettled hsettles
    refine iff_of_true ?_ (.inl hsettles)
    have hissuedAll : ∀ finish ∈ finishes p w, Issued finish.1 := by
      intro finish hfinish
      rw [hfinishes] at hfinish
      obtain ⟨permit, hpermit, rfl⟩ := List.mem_map.mp hfinish
      exact hissued permit hpermit
    obtain ⟨l', hj, hcloses⟩ := closes_of_run hrecorded hfails h hissuedAll
    rw [hfinishes] at hcloses
    refine ⟨l', hj, fun permit hpermit => hcloses.closed ?_ (List.mem_map_of_mem hpermit) hcommitted⟩
    rw [List.map_map]
    exact hnodup
  · have hissuedAll : ∀ finish ∈ finishes p w, Issued finish.1 := by
      intro finish hfinish
      rcases hdropped hsettles with hfinishes | ⟨hfinishes, -⟩
      · rw [hfinishes] at hfinish
        cases hfinish
      · rw [hfinishes] at hfinish
        obtain ⟨permit, hpermit, rfl⟩ := List.mem_map.mp hfinish
        exact hissued permit hpermit
    obtain ⟨l₁, hj, hcloses⟩ := closes_of_run hrecorded hfails h hissuedAll
    rw [or_iff_right hsettles]
    constructor
    · rintro ⟨l', hj', hclosed⟩
      rw [List.eq_nil_iff_forall_not_mem]
      intro permit hpermit
      obtain ⟨record, hfilter, -, hrecord⟩ := (hclosed permit hpermit).record
      rw [hj'.entries_unique hj] at hfilter
      rcases hdropped hsettles with hfinishes | ⟨hfinishes, hnot⟩
      · rw [hfinishes] at hcloses
        cases hcloses
        rw [List.drop_length] at hfilter
        cases hfilter
      · -- the one record of the permit is the success that was recorded over no change
        rw [hfinishes] at hcloses
        obtain ⟨records, hentries, hrecords⟩ := hcloses.entries
        obtain ⟨record', hfilter', -, -, houtcome⟩ := filter_recordOf hrecords
          (by rw [List.map_map]; exact hnodup) (List.mem_map_of_mem hpermit)
        rw [hentries, List.drop_left] at hfilter
        obtain rfl := List.singleton_inj.mp (hfilter.symm.trans hfilter')
        exact hnot (hrecord houtcome)
    · rintro rfl
      exact ⟨l₁, hj, List.forall_mem_nil _⟩

end Journal
end Ferrocrate.Authorization
