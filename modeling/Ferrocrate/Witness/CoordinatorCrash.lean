import Ferrocrate.Witness.CoordinatorMachine
import Ferrocrate.Witness.Journal.Reopened

/-! A publication that stops between two of its actions, and what reconciliation makes of it
after a restart. -/
namespace Ferrocrate.Witness
open Lib Lib.Program Coordinator

inductive Renewal (ed : Ed25519) where
  | publish (nowSecs : UInt64) (key : ed.SigningKey) (predecessor : Option Checkpoint)
      (record : Checkpoint → WitnessRecord)
  | rotate (nowSecs : UInt64) (oldKey newKey : ed.SigningKey) (predecessor : Checkpoint)
      (record : Checkpoint → WitnessRecord)

namespace Renewal
variable (sha256 : Hasher) {ed : Ed25519}

def task : Renewal ed → Coordinated PublicationOutcome
  | publish nowSecs key predecessor record =>
    capturePublishBind sha256 ed nowSecs key predecessor record
  | rotate nowSecs oldKey newKey predecessor record =>
    captureRotatePublishBind sha256 ed nowSecs oldKey newKey predecessor record

def sign (head : Journal.JournalHead) : Renewal ed → Except CheckpointError Checkpoint
  | publish nowSecs key predecessor _ => match predecessor with
    | some previous => Checkpoint.signAfter sha256 ed (.ofJournal head) nowSecs previous key
    | none => Checkpoint.sign sha256 ed (.ofJournal head) nowSecs key .periodic
  | rotate nowSecs oldKey newKey predecessor _ =>
    .ok (Checkpoint.rotateAfter sha256 ed (.ofJournal head) nowSecs predecessor oldKey newKey)

def record : Renewal ed → Checkpoint → WitnessRecord
  | publish _ _ _ record => record
  | rotate _ _ _ _ record => record

variable {sha256}

theorem sign_spec {head : Journal.JournalHead} {call : Renewal ed} {cp : Checkpoint}
    (h : call.sign sha256 head = .ok cp) :
    cp.head = .ofJournal head ∧ cp.WellFormed ∧ cp.kind ≠ .trustReset := by
  cases call with
  | publish nowSecs key predecessor record =>
    cases predecessor with
    | none =>
      obtain ⟨hhead, hw⟩ := Checkpoint.sign_spec h
      refine ⟨hhead, hw, ?_⟩
      simp only [sign, Checkpoint.sign, Except.ite_error_eq_ok] at h
      obtain rfl := Except.ok.inj h.2
      exact (by decide : CheckpointKind.periodic ≠ .trustReset)
    | some previous =>
      obtain ⟨hhead, hw⟩ := Checkpoint.signAfter_spec h
      refine ⟨hhead, hw, ?_⟩
      simp only [sign, Checkpoint.signAfter, Checkpoint.sign, Except.ite_error_eq_ok,
        Except.bind_eq_ok] at h
      obtain ⟨-, _, ⟨-, hsigned⟩, h⟩ := h
      obtain rfl := Except.ok.inj hsigned
      obtain rfl := Except.ok.inj h
      exact (by decide : CheckpointKind.periodic ≠ .trustReset)
  | rotate nowSecs oldKey newKey predecessor record =>
    obtain rfl := Except.ok.inj h
    obtain ⟨hhead, hw⟩ := Checkpoint.rotateAfter_spec predecessor oldKey newKey
    exact ⟨hhead, hw, (by decide : CheckpointKind.rotation ≠ .trustReset)⟩

theorem task_eq (call : Renewal ed) : call.task sha256 = (do
    Task.atomically .preflight (preflight sha256)
    Task.atomically .journalPreflight (tryJournal checkpointPreflight)
    let head ← Task.atomically .flushedHead (tryJournal Journal.flushedHead)
    let cp ← Task.ofExcept (call.sign sha256 head)
    let prepared ← Task.ofExcept (prepareBinding sha256 cp (call.record cp) (sha256 cp.encode))
    let pending ← Task.ofExcept (PendingBinding.new cp prepared)
    Task.atomically (.persistPrepared cp.head pending.eventId) (persistPending sha256 pending)
    Task.atomically .publish (Coordinator.publish cp)
    Task.atomically .persistPublished
      (persistPendingReplace sha256 { pending with state := .published })
    bindPublished sha256 cp prepared { pending with state := .published }) := by
  cases call with
  | publish nowSecs key predecessor record =>
    simp only [task, capturePublishBind, capture, publishPrepared, bind_assoc, pure_bind]
    rfl
  | rotate nowSecs oldKey newKey predecessor record =>
    simp only [task, captureRotatePublishBind, capture, publishPrepared, bind_assoc, pure_bind]
    rfl

end Renewal

section Run
variable {sha256 : Hasher} {ed : Ed25519} {s t : System} {cp : Checkpoint}
  {prepared : WitnessRecord}

theorem bindPublished_bound {pending : PendingBinding}
    {signed : Checkpoint}
    (h : Process.run (bindPublished sha256 signed prepared pending).run s = (.ok (.bound cp), t)) :
    cp = signed ∧ ∃ j, Journal.appendCheckpointPublication sha256 (sha256 signed.encode) prepared
      s.journal = (.ok (), j) := by
  obtain ⟨result, u, happend, h⟩ := Task.run_atomically_bind.mp h
  obtain ⟨hresult, rfl⟩ := Prod.mk.inj happend
  obtain rfl := Except.ok.inj hresult
  cases hr : (Journal.appendCheckpointPublication sha256 (sha256 signed.encode) prepared
      s.journal).1 with
  | error e =>
    rw [hr] at h
    cases e with
    | indeterminate id => cases h
    | _ =>
      simp only [Task.runIf] at h
      split at h
      · cases h
      · cases h
  | ok _ =>
    rw [hr] at h
    refine ⟨?_, _, Prod.ext hr rfl⟩
    obtain ⟨hbound, -⟩ := Prod.mk.inj h
    exact (PublicationOutcome.bound.inj (Except.ok.inj hbound)).symm

structure Bound (sha256 : Hasher) (call : Renewal ed) (s : System) (cp : Checkpoint)
    (prepared : WitnessRecord) (pending : PendingBinding) (j : WitnessJournal) : Prop where
  signed : call.sign sha256 ⟨s.journal.config.journalId, s.journal.epoch, s.journal.head.1,
    s.journal.head.2⟩ = .ok cp
  prepares : prepareBinding sha256 cp (call.record cp) (sha256 cp.encode) = .ok prepared
  pends : PendingBinding.new cp prepared = .ok pending
  appends : Journal.appendCheckpointPublication sha256 (sha256 cp.encode) prepared s.journal
    = (.ok (), j)

def reached (sha256 : Hasher) (s : System) (cp : Checkpoint) (pending : PendingBinding)
    (j : WitnessJournal) : Nat → System
  | 0 | 1 | 2 | 3 => s
  | 4 => ⟨s.journal, some (encodePending sha256 pending), s.artifact⟩
  | 5 => ⟨s.journal, some (encodePending sha256 pending), some cp.encode⟩
  | 6 => ⟨s.journal, some (encodePending sha256 { pending with state := .published }),
      some cp.encode⟩
  | 7 => ⟨j, some (encodePending sha256 { pending with state := .published }), some cp.encode⟩
  | 8 => ⟨j, some (encodePending sha256 { pending with state := .bound }), some cp.encode⟩
  | _ => ⟨j, none, some cp.encode⟩

theorem preflight_none (hs : s.sidecar = none) : preflight sha256 s = (.ok (), s) := by
  refine bind_eq_ok.mpr ⟨s, s, rfl, bind_eq_ok.mpr ⟨none, s, ?_, rfl⟩⟩
  simp only [pendingBinding, hs, secureRead, bind, Except.bind]
  rfl

theorem publish_eq (s : System) (cp : Checkpoint) :
    publish cp s = (.ok (), { s with artifact := some cp.encode }) := by
  refine bind_eq_ok.mpr ⟨(), s, ?_, rfl⟩
  rw [rejectIf, if_neg (by have := cp.length_encode_le; omega)]
  rfl

theorem tryJournal_eq {α : Type} (m : Journaled α) (s : System) :
    tryJournal m s = ((m s.journal).1.mapError CheckpointError.journal,
      { s with journal := (m s.journal).2 }) := by
  rw [tryJournal]
  cases hr : (m s.journal).1 with
  | error e =>
    show (ofExcept CheckpointError.journal (m s.journal).1 : Stored α) _ = _
    rw [hr]
    rfl
  | ok a => exact bind_eq_ok.mpr ⟨_, _, rfl, by rw [hr]; rfl⟩

theorem checkpointPreflight_state (j : WitnessJournal) : (checkpointPreflight j).2 = j := by
  have hkept : wp checkpointPreflight (fun _ u => u = j) (fun _ u => u = j) j := by
    rw [checkpointPreflight, wp_bind, wp_get, wp_rejectIf]
    exact ⟨fun _ => rfl, fun _ => rfl⟩
  exact after_of_wp hkept

theorem persistPending_none (hs : s.sidecar = none) (pending : PendingBinding) :
    persistPending sha256 pending s
      = (.ok (), { s with sidecar := some (encodePending sha256 pending) }) := by
  refine bind_eq_ok.mpr ⟨s, s, rfl, bind_eq_ok.mpr ⟨(), s, ?_, rfl⟩⟩
  rw [rejectIf, hs, if_neg (by decide)]
  rfl

theorem Renewal.bound_of_run (call : Renewal ed) (hs : s.sidecar = none)
    (h : Process.run (call.task sha256).run s = (.ok (.bound cp), t)) :
    ∃ prepared pending j, Bound sha256 call s cp prepared pending j ∧
      ∀ k, (Process.advances k (call.task sha256).run s).2 = reached sha256 s cp pending j k := by
  have hflight : preflight sha256 s = (.ok (), s) := preflight_none hs
  rw [call.task_eq] at h ⊢
  obtain ⟨_, _, h0, h⟩ := Task.run_atomically_bind.mp h
  obtain ⟨-, rfl⟩ := Prod.mk.inj (hflight.symm.trans h0)
  obtain ⟨_, _, hmode, h⟩ := Task.run_atomically_bind.mp h
  have hkept := hmode
  rw [tryJournal_eq, checkpointPreflight_state] at hkept
  obtain ⟨-, rfl⟩ := Prod.mk.inj hkept
  obtain ⟨head, _, hhead, h⟩ := Task.run_atomically_bind.mp h
  obtain ⟨hcaptured, rfl⟩ := Prod.mk.inj ((tryJournal_eq _ _).symm.trans hhead)
  obtain rfl := Except.ok.inj hcaptured
  obtain ⟨signed, hsign, h⟩ := Task.run_ofExcept_bind.mp h
  obtain ⟨prepared, hprepared, h⟩ := Task.run_ofExcept_bind.mp h
  obtain ⟨pending, hpending, h⟩ := Task.run_ofExcept_bind.mp h
  obtain ⟨_, _, hpersist, h⟩ := Task.run_atomically_bind.mp h
  obtain ⟨-, rfl⟩ := Prod.mk.inj ((persistPending_none hs pending).symm.trans hpersist)
  obtain ⟨_, _, hpublish, h⟩ := Task.run_atomically_bind.mp h
  obtain ⟨-, rfl⟩ := Prod.mk.inj ((publish_eq _ _).symm.trans hpublish)
  obtain ⟨_, _, hpublished, h⟩ := Task.run_atomically_bind.mp h
  obtain ⟨-, rfl⟩ := Prod.mk.inj hpublished
  obtain ⟨rfl, j, happend⟩ := bindPublished_bound h
  refine ⟨prepared, pending, j, ⟨hsign, hprepared, hpending, happend⟩, fun k => ?_⟩
  have hbind : ∀ k, (Process.advances k (bindPublished sha256 cp prepared
      { pending with state := .published }).run
      ⟨s.journal, some (encodePending sha256 { pending with state := .published }),
        some cp.encode⟩).2 = reached sha256 s cp pending j (k + 6) := by
    intro k
    have hresult : onJournal (Journal.appendCheckpointPublication sha256 (sha256 cp.encode) prepared)
        ⟨s.journal, some (encodePending sha256 { pending with state := .published }), some cp.encode⟩
        = (.ok (.ok ()), ⟨j, some (encodePending sha256 { pending with state := .published }),
          some cp.encode⟩) := by
      rw [onJournal, happend]
    rcases k with _ | _ | _ | k
    · rfl
    · rw [bindPublished, Task.advances_atomically_bind hresult]
      rfl
    · rw [bindPublished, Task.advances_atomically_bind hresult]
      rfl
    · rw [bindPublished, Task.advances_atomically_bind hresult]
      exact congrArg Prod.snd (Process.advances_done k _ _)
  rcases k with _ | _ | _ | k
  · rfl
  · rw [Task.advances_atomically_bind h0]
    rfl
  · rw [Task.advances_atomically_bind h0, Task.advances_atomically_bind hmode]
    rfl
  · rw [Task.advances_atomically_bind h0, Task.advances_atomically_bind hmode,
      Task.advances_atomically_bind hhead, hsign, Task.ofExcept_ok_bind, hprepared,
      Task.ofExcept_ok_bind, hpending, Task.ofExcept_ok_bind]
    rcases k with _ | _ | _ | k
    · rfl
    · rw [Task.advances_atomically_bind hpersist]
      rfl
    · rw [Task.advances_atomically_bind hpersist, Task.advances_atomically_bind hpublish]
      rfl
    · rw [Task.advances_atomically_bind hpersist, Task.advances_atomically_bind hpublish,
        Task.advances_atomically_bind hpublished]
      exact hbind k

variable {p : PendingBinding} {record : WitnessRecord}

theorem pendingBinding_found (hw : p.WellFormed record)
    (hsidecar : s.sidecar = some (encodePending sha256 p))
    (hartifact : s.artifact = some p.checkpoint.encode ∨ s.artifact = none ∧ p.state = .prepared) :
    pendingBinding sha256 s = .ok (some p) := by
  have hlen := length_encodePending_le sha256 hw
  have hcp := p.checkpoint.length_encode_le
  simp only [pendingBinding, hsidecar, secureRead, if_neg (not_lt.mpr hlen), bind, Except.bind,
    decodePending_encodePending sha256 hw]
  obtain hsome | ⟨hnone, hstate⟩ := hartifact
  · simp only [hsome, if_neg (not_lt.mpr hcp)]
    rfl
  · simp only [hnone, hstate]
    rfl

theorem pendingBinding_refused
    (hw : p.WellFormed record) (hsidecar : s.sidecar = some (encodePending sha256 p)) {old : Bytes}
    (hold : s.artifact = some old) (hne : old ≠ p.checkpoint.encode) :
    ∃ e, pendingBinding sha256 s = .error e := by
  have hlen := length_encodePending_le sha256 hw
  simp only [pendingBinding, hsidecar, secureRead, if_neg (not_lt.mpr hlen), bind, Except.bind,
    decodePending_encodePending sha256 hw, hold]
  by_cases hlong : old.length > maxCheckpointBytes
  · rw [if_pos hlong]
    exact ⟨_, rfl⟩
  · rw [if_neg hlong]
    exact ⟨_, if_neg hne⟩

variable {u : WitnessJournal}

section
variable (hw : p.WellFormed prepared) (hepoch : t.journal.epoch = p.checkpoint.head.epoch)
  (hprepared : prepareBinding sha256 p.checkpoint prepared (sha256 p.checkpoint.encode)
    = .ok prepared)
  (happend : Journal.appendCheckpointPublication sha256 (sha256 p.checkpoint.encode) prepared
    t.journal = (.ok (), u))
include hw hepoch hprepared happend

theorem rebind_settles :
    Process.run (rebind sha256 p prepared).run t = (.ok (), ⟨u, none, t.artifact⟩) := by
  refine Task.run_atomically_bind.mpr ⟨t.journal.epoch, t, rfl, ?_⟩
  rw [if_neg (not_not.mpr hepoch)]
  refine Task.run_ofExcept_bind.mpr ⟨prepared, hprepared, ?_⟩
  refine Task.run_ofExcept_bind.mpr ⟨(), ?_, ?_⟩
  · rw [if_neg]
    simp [hw.eventId, hw.epoch, hw.sequence]
  refine Task.run_atomically_bind.mpr ⟨(), { t with journal := u }, ?_, rfl⟩
  rw [tryJournal_eq, happend]
  rfl

variable (hkind : p.checkpoint.kind ≠ .trustReset)
  (hid : t.journal.config.journalId = p.checkpoint.head.journalId)
include hkind hid

theorem reconcileBinding_settles (hstate : p.state ≠ .bindingFailed) :
    Process.run (reconcileBinding sha256 p prepared).run t = (.ok (), ⟨u, none, t.artifact⟩) := by
  rw [reconcileBinding, if_neg hstate]
  refine Task.run_atomically_bind.mpr ⟨⟨t.journal.config.journalId, t.journal.epoch,
    t.journal.head.1, t.journal.head.2⟩, t, rfl, ?_⟩
  rw [if_neg (not_not.mpr hid), if_neg (fun h => hkind h.1)]
  exact rebind_settles hw hepoch hprepared happend

theorem reconcilePending_settles (hfound : pendingBinding sha256 t = .ok (some p))
    (hstate : p.state ≠ .bindingFailed)
    (hartifact : p.state = .prepared ∨ t.artifact = some p.checkpoint.encode) :
    Process.run (reconcilePending sha256).run t
      = (.ok p.checkpoint, ⟨u, none, some p.checkpoint.encode⟩) := by
  have hdecoded : (decodeRecord p.recordBytes).mapError (fun _ => CheckpointError.invalidArtifact)
      = .ok (decodedEntry p.checkpoint.head.journalId prepared) := by
    rw [hw.bytes, decodeRecord_recordLayout hw.valid]
    rfl
  refine Task.run_atomically_bind.mpr ⟨p, t, ?_, ?_⟩
  · refine bind_eq_ok.mpr ⟨t, t, rfl, bind_eq_ok.mpr ⟨some p, t, ?_, rfl⟩⟩
    rw [hfound]
    rfl
  rw [if_neg hstate]
  by_cases hfresh : p.state = .prepared
  · have hw' : ({ p with state := .published } : PendingBinding).WellFormed prepared := { hw with }
    refine Task.run_bind.mpr ⟨(), ⟨t.journal, some (encodePending sha256
      { p with state := .published }), some p.checkpoint.encode⟩, ?_, ?_⟩
    · rw [Task.runIf, if_pos hfresh]
      exact Task.run_atomically_bind.mpr ⟨(), _, publish_eq _ _, rfl⟩
    · simp only [if_pos hfresh]
      refine Task.run_ofExcept_bind.mpr ⟨_, hdecoded, Task.run_bind.mpr ⟨(), _, ?_, rfl⟩⟩
      exact reconcileBinding_settles hw' hepoch hprepared happend hkind hid (by simp)
  · have hkept := hartifact.resolve_left hfresh
    refine Task.run_bind.mpr ⟨(), t, ?_, ?_⟩
    · rw [Task.runIf, if_neg hfresh]
      rfl
    · simp only [if_neg hfresh]
      refine Task.run_ofExcept_bind.mpr ⟨_, hdecoded, Task.run_bind.mpr ⟨(), _, ?_, rfl⟩⟩
      rw [← hkept]
      exact reconcileBinding_settles hw hepoch hprepared happend hkind hid hstate

end

end Run

def bindsCheckpoint (sha256 : Hasher) (cp : Checkpoint) (r : ParsedRecord) : Bool :=
  r.stage = .checkpointPublished ∧ r.eventId = bindingEventId sha256 cp
    ∧ r.resultDigest = some (sha256 cp.encode)

def bindingCount (sha256 : Hasher) (cp : Checkpoint) (j : WitnessJournal) : Nat × Nat :=
  match Journal.records j with
  | .error _ => (0, 0)
  | .ok stored => (stored.length, stored.countP fun bytes =>
    match decodeRecord bytes with
    | .error _ => false
    | .ok d => bindsCheckpoint sha256 cp d.record)

def recovered (sha256 : Hasher) (cp : Checkpoint) (before : WitnessJournal) (t : System) :
    Bool :=
  match pendingBinding sha256 t with
  | .error _ => false
  | .ok none => true
  | .ok (some _) =>
    match Process.run (reconcilePending sha256).run t with
    | (.error _, _) => false
    | (.ok bound, u) => bound = cp ∧ u.artifact = some cp.encode ∧ u.sidecar = none
      ∧ (bindingCount sha256 cp u.journal).2 = 1
      ∧ (bindingCount sha256 cp u.journal).1 ≤ (bindingCount sha256 cp before).1 + 1

section Recovery
variable {sha256 : Hasher} {config : JournalConfig} {l : Ledger} {j : WitnessJournal}
  {ed : Ed25519} {s t : System} {cp : Checkpoint} {prepared : WitnessRecord}
  {pending : PendingBinding}

theorem Refines.bindingCount_eq (h : Refines sha256 config l j) (cp : Checkpoint) :
    bindingCount sha256 cp j
      = (l.entries.length, l.entries.countP (bindsCheckpoint sha256 cp)) := by
  have hvalid := h.represents.wellFormed.valid
  simp only [bindingCount, h.records_eq, List.length_map, List.countP_map, Prod.mk.injEq, true_and]
  refine List.countP_congr fun r hr => ?_
  simp only [Function.comp_apply, decodeRecord_recordLayout (hvalid r hr)]
  rfl

theorem Refines.binds_once (h : Refines sha256 config l j)
    (hbound : ∃ r ∈ l.entries, bindsCheckpoint sha256 cp r = true) :
    l.entries.countP (bindsCheckpoint sha256 cp) = 1 := by
  have hle : l.entries.countP (bindsCheckpoint sha256 cp)
      ≤ (l.entries.map WitnessRecord.eventId).count (bindingEventId sha256 cp) := by
    rw [List.count_eq_countP, List.countP_map]
    refine List.countP_mono_left fun r _ hr => ?_
    simp only [bindsCheckpoint, Bool.decide_and, Bool.and_eq_true, decide_eq_true_eq] at hr
    simp [hr.2.1]
  have hone := List.nodup_iff_count_le_one.mp h.represents.wellFormed.distinct
    (bindingEventId sha256 cp)
  have hpos := List.countP_pos_iff.mpr hbound
  omega

theorem prepareBinding_again {record : WitnessRecord}
    (h : prepareBinding sha256 cp record (sha256 cp.encode) = .ok prepared) :
    prepareBinding sha256 cp prepared (sha256 cp.encode) = .ok prepared ∧
      prepared.eventId = bindingEventId sha256 cp := by
  obtain ⟨hseq, -, hevent, heq⟩ := prepareBinding_eq_ok h
  refine ⟨?_, hevent⟩
  rw [prepareBinding, hseq]
  rw [heq]

theorem recovered_of_none (hs : t.sidecar = none) (before : WitnessJournal) :
    recovered sha256 cp before t = true := by
  simp only [recovered, pendingBinding, hs, secureRead, bind, Except.bind]

theorem Bound.append_reopened {call : Renewal ed} (hb : Bound sha256 call s cp prepared pending j)
    (hs : Refines sha256 config l s.journal) {j' : WitnessJournal}
    (hj' : Reopened s.journal j' ∨ Reopened j j') :
    ∃ u l', Journal.appendCheckpointPublication sha256 (sha256 cp.encode) prepared j' = (.ok (), u) ∧
      Refines sha256 config l' u ∧ l'.entries.length ≤ l.entries.length + 1 ∧
      Journal.Recorded (sha256 cp.encode) prepared u := by
  obtain ⟨⟨l', hl', -, hlen⟩, hrecorded, hagain⟩ :=
    Journal.appendCheckpointPublication_ok hs hb.appends
  obtain hbefore | hafter := hj'
  · obtain ⟨_, u, hu, hr⟩ := Journal.appendCheckpointPublication_follows hbefore sha256
      (sha256 cp.encode) prepared () j hb.appends
    exact ⟨u, l', hu, hl'.of_reopened hr, hlen, hrecorded.reopened hr⟩
  · exact ⟨j', l', hagain j' hafter, hl'.of_reopened hafter, hlen, hrecorded.reopened hafter⟩

theorem Bound.recovered {call : Renewal ed} (hb : Bound sha256 call s cp prepared pending j)
    (hs : Refines sha256 config l s.journal) (hj' : Reopened s.journal t.journal ∨ Reopened j t.journal)
    {p : PendingBinding} (hw : p.WellFormed prepared) (hcp : p.checkpoint = cp)
    (hstate : p.state ≠ .bindingFailed) (hsidecar : t.sidecar = some (encodePending sha256 p))
    (hartifact : t.artifact = some cp.encode ∨ t.artifact = none ∧ p.state = .prepared) :
    recovered sha256 cp s.journal t = true := by
  subst hcp
  obtain ⟨hhead, -, hkind⟩ := Renewal.sign_spec hb.signed
  obtain ⟨hprepared, hevent⟩ := prepareBinding_again hb.prepares
  obtain ⟨u, l', happend, hu, hlen, hrecorded⟩ := hb.append_reopened hs hj'
  obtain ⟨⟨l'', hl'', -⟩, -⟩ := Journal.appendCheckpointPublication_ok hs hb.appends
  have hconfig : t.journal.config = s.journal.config := by
    obtain hr | hr := hj'
    · exact hr.config
    · rw [hr.config, hl''.sameConfig, hs.sameConfig]
  have hepoch : t.journal.epoch = s.journal.epoch := by
    have hbefore : prepared.epoch = s.journal.epoch := by
      obtain ⟨-, hprep, -⟩ := prepareBinding_eq_ok hb.prepares
      rw [hprep, hhead]
      rfl
    obtain hr | hr := hj'
    · exact hr.epoch
    · obtain ⟨-, ⟨hafter, -⟩, -⟩ := Journal.appendCheckpointPublication_ok hs hb.appends
      rw [hr.epoch, ← hafter, hbefore]
  have hfound := pendingBinding_found hw hsidecar hartifact
  have hrun := reconcilePending_settles hw (by rw [hepoch, hhead]; rfl) hprepared happend hkind
    (by rw [hconfig, hhead]; rfl) hfound hstate (hartifact.symm.imp_left fun h => h.2)
  obtain ⟨r, hr, hrevent, hrstage, hrdigest⟩ := hu.recorded_entry hrecorded
  have hbinds : bindsCheckpoint sha256 p.checkpoint r = true := by
    simp only [bindsCheckpoint, hrstage, hrevent, hevent, hrdigest, and_self, decide_true]
  have honce := hu.binds_once ⟨r, hr, hbinds⟩
  simp only [Witness.recovered, hfound, hrun, hu.bindingCount_eq, hs.bindingCount_eq, honce,
    true_and, decide_eq_true_eq]
  exact hlen

end Recovery

/-- A call that would report its binding stops after some of its actions; after a restart it is
recovered, except when it stops right after its first sidecar with another artifact at the
path: the first four actions are the preflight, the mode, the head and that sidecar. -/
theorem stopped_call_recovered_iff (sha256 : Hasher) {ed : Ed25519} (config : JournalConfig)
    (l : Ledger) (s bound : System) (call : Renewal ed) (cp : Checkpoint) (k : Nat)
    (mirror : ReadMirror) (j' : WitnessJournal) (hs : Refines sha256 config l s.journal)
    (hsidecar : s.sidecar = none)
    (hcall : Process.run (call.task sha256).run s = (.ok (.bound cp), bound))
    (hopen : (Process.advances k (call.task sha256).run s).2.journal.reopen ∅ mirror = .ok j') :
    recovered sha256 cp s.journal
        { (Process.advances k (call.task sha256).run s).2 with journal := j' } = true
      ↔ (k = 4 → s.artifact = none ∨ s.artifact = some cp.encode) := by
  obtain ⟨prepared, pending, j, hb, hreached⟩ := call.bound_of_run hsidecar hcall
  obtain ⟨-, hwcp, -⟩ := Renewal.sign_spec hb.signed
  obtain ⟨⟨l', hl', -⟩, -⟩ := Journal.appendCheckpointPublication_ok hs hb.appends
  have hw := PendingBinding.wellFormed_new hb.pends hwcp
  obtain ⟨-, hnew⟩ := PendingBinding.new_eq_ok.mp hb.pends
  have hcp : pending.checkpoint = cp := by rw [hnew]
  have hprepared : pending.state = .prepared := by rw [hnew]
  have hwpublished : ({ pending with state := .published } : PendingBinding).WellFormed prepared :=
    { hw with }
  have hwbound : ({ pending with state := .bound } : PendingBinding).WellFormed prepared :=
    { hw with }
  rw [hreached] at hopen ⊢
  match k with
  | 0 | 1 | 2 | 3 =>
    refine iff_of_true (recovered_of_none ?_ _) (by omega)
    exact hsidecar
  | 4 =>
    have hr := hs.reopened hopen
    constructor
    · intro hrec _
      cases hold : s.artifact with
      | none => exact .inl rfl
      | some old =>
        by_contra hne
        obtain ⟨e, he⟩ := pendingBinding_refused (s := ⟨j', some (encodePending sha256 pending),
          s.artifact⟩) hw rfl hold (fun h => hne (.inr (by rw [h, hcp])))
        simp only [reached, recovered, he] at hrec
        cases hrec
    · intro hclear
      refine hb.recovered hs (.inl hr) hw hcp (by rw [hprepared]; decide) rfl ?_
      exact (hclear rfl).symm.imp_right fun h => ⟨h, hprepared⟩
  | 5 =>
    refine iff_of_true ?_ (by omega)
    exact hb.recovered hs (.inl (hs.reopened hopen)) hw hcp (by rw [hprepared]; decide) rfl (.inl rfl)
  | 6 =>
    refine iff_of_true ?_ (by omega)
    exact hb.recovered hs (.inl (hs.reopened hopen)) hwpublished hcp (fun h => nomatch h) rfl (.inl rfl)
  | 7 =>
    refine iff_of_true ?_ (by omega)
    exact hb.recovered hs (.inr (hl'.reopened hopen)) hwpublished hcp (fun h => nomatch h) rfl
      (.inl rfl)
  | 8 =>
    refine iff_of_true ?_ (by omega)
    exact hb.recovered hs (.inr (hl'.reopened hopen)) hwbound hcp (fun h => nomatch h) rfl (.inl rfl)
  | k + 9 => exact iff_of_true (recovered_of_none rfl _) (by omega)

def firstCall : Renewal firstScheme :=
  .publish 1 () none fun _ => plainRecord (.fill 16 7) (.fill 16 9) .checkpointPublished

def firstSystem (artifact : Option Bytes) : System :=
  ⟨.create (.new (.zero 16) .required) ∅, none, artifact⟩

def stoppedFirst (artifact : Option Bytes) (k : Nat) : System :=
  let stopped := (Process.advances k (firstCall.task Sha256.sha256).run (firstSystem artifact)).2
  match stopped.journal.reopen ∅ stopped.journal.mirror with
  | .error _ => stopped
  | .ok journal => { stopped with journal := journal }

theorem stopped_call_recovered_iff_first :
    recovered Sha256.sha256 firstCheckpoint (firstSystem none).journal (stoppedFirst none 4)
      = true := by
  have hcall : (Process.run (firstCall.task Sha256.sha256).run (firstSystem none)).1
      = .ok (.bound firstCheckpoint) := by
    decide +kernel
  have hopen : ((Process.advances 4 (firstCall.task Sha256.sha256).run
      (firstSystem none)).2.journal.reopen ∅
      (Process.advances 4 (firstCall.task Sha256.sha256).run (firstSystem none)).2.journal.mirror).toBool
        = true := by
    decide +kernel
  cases hj : (Process.advances 4 (firstCall.task Sha256.sha256).run (firstSystem none)).2.journal.reopen
      ∅ (Process.advances 4 (firstCall.task Sha256.sha256).run (firstSystem none)).2.journal.mirror with
  | error e =>
    rw [hj] at hopen
    cases hopen
  | ok journal =>
    have hrun : Process.run (firstCall.task Sha256.sha256).run (firstSystem none)
        = (.ok (.bound firstCheckpoint),
          (Process.run (firstCall.task Sha256.sha256).run (firstSystem none)).2) := by
      rw [← hcall]
    have h := (stopped_call_recovered_iff Sha256.sha256 (.new (.zero 16) .required) .empty
      (firstSystem none) _ firstCall firstCheckpoint 4 _ journal (create_refines _ _ _) rfl
      hrun hj).mpr fun _ => .inl rfl
    rw [stoppedFirst, hj]
    exact h

theorem stopped_beside_earlier_artifact :
    (Process.run (firstCall.task Sha256.sha256).run (firstSystem (some [1]))).1
        = .ok (.bound firstCheckpoint) ∧
      pendingBinding Sha256.sha256 (stoppedFirst (some [1]) 4) = .error .rollback ∧
      recovered Sha256.sha256 firstCheckpoint (firstSystem (some [1])).journal
        (stoppedFirst (some [1]) 4) = false := by
  unfold stoppedFirst firstCheckpoint recordedCheckpoint
  rw [Sha256.sha256_eq_unrolled]
  decide +kernel

end Ferrocrate.Witness
