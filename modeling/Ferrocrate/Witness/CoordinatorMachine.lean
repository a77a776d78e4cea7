import Ferrocrate.Witness.CoordinatorBinding

/-! Runs of the coordinator among the users of its journal: calls that stop anywhere, restarts,
reconciliations, and journal operations at any moment. -/
namespace Ferrocrate.Witness
open Lib Lib.Program Coordinator

inductive Call (ed : Ed25519) where
  | capturePublishBind (nowSecs : UInt64) (key : ed.SigningKey) (predecessor : Option Checkpoint)
      (record : Checkpoint → WitnessRecord)
  | captureRotatePublishBind (nowSecs : UInt64) (oldKey newKey : ed.SigningKey)
      (predecessor : Checkpoint) (record : Checkpoint → WitnessRecord)
  | captureResetPublishBind (nowSecs : UInt64) (newKey : ed.SigningKey) (predecessor : Checkpoint)
      (record : Checkpoint → WitnessRecord)
  | reconcilePending

def PublicationOutcome.bound? : PublicationOutcome → Option Checkpoint
  | .bound cp => some cp
  | .pendingBinding _ => none

def Call.task (sha256 : Hasher) {ed : Ed25519} : Call ed → Coordinated (Option Checkpoint)
  | capturePublishBind nowSecs key predecessor record => do
    let outcome ← Coordinator.capturePublishBind sha256 ed nowSecs key predecessor record
    pure outcome.bound?
  | captureRotatePublishBind nowSecs oldKey newKey predecessor record => do
    let outcome ←
      Coordinator.captureRotatePublishBind sha256 ed nowSecs oldKey newKey predecessor record
    pure outcome.bound?
  | captureResetPublishBind nowSecs newKey predecessor record => do
    let outcome ← Coordinator.captureResetPublishBind sha256 ed nowSecs newKey predecessor record
    pure outcome.bound?
  | reconcilePending => do
    let cp ← Coordinator.reconcilePending sha256
    pure (some cp)

structure Machine where
  system : System
  running : Option (Process System Moment (Except CheckpointError (Option Checkpoint)))

inductive MachineEvent (ed : Ed25519) where
  | journal (op : Operation)
  | start (call : Call ed)
  | step
  | restart (faults : Finset FaultPoint) (mirror : ReadMirror)

namespace Machine
variable (sha256 : Hasher) {ed : Ed25519}

def next (m : Machine) : MachineEvent ed → Machine
  | .journal op => { m with system := { m.system with journal := op.apply sha256 m.system.journal } }
  | .start call =>
    match m.running with
    | some (.act _ _ _) => m
    | _ => { m with running := some (call.task sha256).run }
  | .step =>
    match m.running with
    | none => m
    | some p => ⟨(p.advance m.system).2, some (p.advance m.system).1⟩
  | .restart faults mirror =>
    match m.system.journal.reopen faults mirror with
    | .error _ => m
    | .ok journal => ⟨{ m.system with journal := journal }, none⟩

def run (events : List (MachineEvent ed)) (m : Machine) : Machine := events.foldl (next sha256) m

def reported (m : Machine) : Option Checkpoint :=
  match m.running with
  | some (.done (.ok cp)) => cp
  | _ => none

def captured (m : Machine) : Option (FlushedHead × Id) :=
  match m.running.bind Process.label? with
  | some (.persistPrepared head eventId) => some (head, eventId)
  | _ => none

def undisturbed (m : Machine) : MachineEvent ed → Bool
  | .journal op => !(m.captured.isSome || outstanding sha256 m.system)
      || (op.apply sha256 m.system.journal).head = m.system.journal.head
  | .step => m.captured.all fun c => !m.system.journal.store.events.contains c.2
  | .start _ => true
  | .restart _ _ => true

def undisturbedRun : List (MachineEvent ed) → Machine → Bool
  | [], _ => true
  | e :: es, m => m.undisturbed sha256 e && undisturbedRun es (m.next sha256 e)

end Machine

section Run
variable {sha256 : Hasher} {config : JournalConfig} {ed : Ed25519} {m : Machine}

open Lib.Protocol

def BoundInPlace (sha256 : Hasher) (r : Except CheckpointError (Option Checkpoint))
    (s : System) : Prop :=
  ∀ cp, r = .ok (some cp) → placed sha256 cp s.journal = true

theorem Call.task_safe (call : Call ed) {s : System} (h : (bindingProtocol sha256 config).inv s) :
    (bindingProtocol sha256 config).Safe (BoundInPlace sha256) (call.task sha256).run s := by
  have hshape : ∀ {task : Coordinated (Option Checkpoint)},
      (bindingProtocol sha256 config).Ensures task
        (fun cp t => ∀ c, cp = some c → placed sha256 c t.journal = true) (fun _ _ => True) s →
      (bindingProtocol sha256 config).Safe (BoundInPlace sha256) task.run s := by
    intro task htask
    refine Safe.mono htask fun r t _ hr cp hcp => ?_
    subst hcp
    exact hr cp rfl
  have hcapture : ∀ {task : Coordinated PublicationOutcome},
      (bindingProtocol sha256 config).Ensures task
        (fun outcome t => ∀ c, outcome = .bound c → placed sha256 c t.journal = true)
        (fun _ _ => True) s →
      (bindingProtocol sha256 config).Safe (BoundInPlace sha256)
        (do let outcome ← task; pure outcome.bound? : Coordinated (Option Checkpoint)).run s := by
    intro task htask
    refine hshape ?_
    rw [ensures_bind]
    refine htask.mono (fun outcome t hinv hbound => ⟨hinv, fun c hc => ?_⟩) (fun _ _ _ h => h)
    cases outcome with
    | bound cp => exact hbound c (congrArg PublicationOutcome.bound (Option.some.inj hc))
    | pendingBinding p => cases hc
  cases call with
  | capturePublishBind nowSecs key predecessor record =>
    exact hcapture (capturePublishBind_ensures h nowSecs key predecessor record)
  | captureRotatePublishBind nowSecs oldKey newKey predecessor record =>
    exact hcapture (captureRotatePublishBind_ensures h nowSecs oldKey newKey predecessor record)
  | captureResetPublishBind nowSecs newKey predecessor record =>
    exact hcapture (captureResetPublishBind_ensures h nowSecs newKey predecessor record)
  | reconcilePending =>
    refine hshape ?_
    rw [Call.task, ensures_bind]
    refine (reconcilePending_ensures h).mono (fun cp t hinv hplaced => ⟨hinv, fun c hc => ?_⟩)
      (fun _ _ _ h => h)
    rw [← Option.some.inj hc]
    exact hplaced

theorem others_of_apply {label : Moment} {s : System} (op : Operation)
    (h : (∃ head eventId, label = .persistPrepared head eventId) ∨ outstanding sha256 s = true →
      (op.apply sha256 s.journal).head = s.journal.head) :
    Others sha256 config label s { s with journal := op.apply sha256 s.journal } := by
  refine ⟨rfl, rfl, fun l hl => ?_⟩
  obtain ⟨l', hl', hmoves⟩ := op.apply_refines hl
  refine ⟨l', hl', hmoves.entries_prefix, fun hguard => ?_⟩
  have hhead := congrArg (fun p => p.1.toNat) (h hguard)
  rw [show (op.apply sha256 s.journal).head.1.toNat = l'.entries.length from
    hl'.represents.headSequence, show s.journal.head.1.toNat = l.entries.length from
    hl.represents.headSequence] at hhead
  exact (hmoves.entries_prefix.eq_of_length hhead.symm).symm

structure Machine.Keeps (sha256 : Hasher) (config : JournalConfig) (m : Machine) : Prop where
  inv : (bindingProtocol sha256 config).inv m.system
  safe : ∀ p, m.running = some p →
    (bindingProtocol sha256 config).Safe (BoundInPlace sha256) p m.system

theorem Machine.Keeps.next (h : m.Keeps sha256 config) (e : MachineEvent ed)
    (he : m.undisturbed sha256 e = true) : (m.next sha256 e).Keeps sha256 config := by
  cases e with
  | journal op =>
    have hturn : ∀ label, (∀ head eventId, label = .persistPrepared head eventId →
        m.captured.isSome = true) → Others sha256 config label m.system
          { m.system with journal := op.apply sha256 m.system.journal } := by
      intro label hcaptured
      refine others_of_apply op fun hguard => ?_
      simp only [Machine.undisturbed, Bool.or_eq_true, Bool.not_eq_true', Bool.or_eq_false_iff,
        decide_eq_true_eq] at he
      obtain ⟨hfree, hsettled⟩ | hhead := he
      · obtain ⟨head, eventId, hlabel⟩ | hout := hguard
        · rw [hcaptured head eventId hlabel] at hfree
          cases hfree
        · rw [hout] at hsettled
          cases hsettled
      · exact hhead
    obtain ⟨l, hl⟩ := h.inv
    have hidle := hturn .clear (fun _ _ hlabel => nomatch hlabel)
    refine ⟨(bindingProtocol sha256 config).stable h.inv hidle, fun p hp => ?_⟩
    cases p with
    | done r =>
      have hdone := h.safe (.done r) hp
      exact ⟨(bindingProtocol sha256 config).stable h.inv hidle,
        fun cp hcp => placed_others hl hidle (hdone.2 cp hcp)⟩
    | act label update rest =>
      refine (h.safe _ hp).others rfl (hturn label fun head eventId hlabel => ?_)
      have hrunning : m.running = some (.act label update rest) := hp
      simp [Machine.captured, hrunning, Process.label?, hlabel]
  | start call =>
    cases hr : m.running with
    | none =>
      simp only [Machine.next, hr]
      refine ⟨h.inv, fun p hp => ?_⟩
      obtain rfl := Option.some.inj hp
      exact call.task_safe h.inv
    | some p =>
      cases p with
      | done r =>
        simp only [Machine.next, hr]
        refine ⟨h.inv, fun p hp => ?_⟩
        obtain rfl := Option.some.inj hp
        exact call.task_safe h.inv
      | act label update next =>
        simp only [Machine.next, hr]
        exact h
  | step =>
    cases hr : m.running with
    | none =>
      simp only [Machine.next, hr]
      exact h
    | some p =>
      have hsafe := (h.safe p hr).advance (Others.refl sha256 config) ?_
      · simp only [Machine.next, hr]
        refine ⟨hsafe.inv, fun q hq => ?_⟩
        obtain rfl := Option.some.inj hq
        exact hsafe
      · rintro label hlabel head eventId rfl
        simpa [Machine.undisturbed, Machine.captured, hr, hlabel] using he
  | restart faults mirror =>
    cases hopen : m.system.journal.reopen faults mirror with
    | error e =>
      simp only [Machine.next, hopen]
      exact h
    | ok journal =>
      simp only [Machine.next, hopen]
      obtain ⟨l, hl⟩ := h.inv
      refine ⟨⟨l, hl.refines.reopen hopen, ?_, hl.bound⟩, fun p hp => nomatch hp⟩
      intro p hp hfresh
      rw [show ({ m.system with journal := journal } : System).journal.head = _ from
        hl.refines.head_eq_of_entries (hl.refines.reopen hopen) rfl]
      exact hl.unbound p hp hfresh

theorem Machine.Keeps.run (h : m.Keeps sha256 config) (events : List (MachineEvent ed))
    (he : undisturbedRun sha256 events m = true) :
    (m.run sha256 events).Keeps sha256 config := by
  induction events generalizing m with
  | nil => exact h
  | cons e es ih =>
    rw [undisturbedRun, Bool.and_eq_true] at he
    exact ih (h.next e he.1) he.2

def Machine.initial (config : JournalConfig) (faults : Finset FaultPoint)
    (artifact : Option Bytes) : Machine :=
  ⟨⟨.create config faults, none, artifact⟩, none⟩

theorem Machine.initial_keeps (sha256 : Hasher) (config : JournalConfig)
    (faults : Finset FaultPoint) (artifact : Option Bytes) :
    (Machine.initial config faults artifact).Keeps sha256 config :=
  ⟨⟨.empty, create_refines sha256 config faults, fun _ hp => (nomatch hp),
    fun _ hp => (nomatch hp)⟩, fun _ hp => (nomatch hp)⟩

end Run

/-- In every run in which nobody moves a captured head before it is bound, a checkpoint that a
call reports as bound is bound by the record right after its head. -/
theorem run_reported_placed (sha256 : Hasher) {ed : Ed25519} (config : JournalConfig)
    (faults : Finset FaultPoint) (artifact : Option Bytes) (events : List (MachineEvent ed))
    (cp : Checkpoint)
    (he : Machine.undisturbedRun sha256 events (.initial config faults artifact) = true)
    (hcp : (Machine.run sha256 events (.initial config faults artifact)).reported = some cp) :
    placed sha256 cp (Machine.run sha256 events (.initial config faults artifact)).system.journal
      = true := by
  have hkeeps := (Machine.initial_keeps sha256 config faults artifact).run events he
  generalize Machine.run sha256 events (.initial config faults artifact) = m at hkeeps hcp
  rw [Machine.reported] at hcp
  split at hcp
  · next hrunning =>
    exact (hkeeps.safe _ hrunning).2 cp (congrArg Except.ok hcp)
  · cases hcp

def firstCheckpoint : Checkpoint :=
  { recordedCheckpoint with
    head := ⟨.zero 16, 1, 0, .zero 32⟩
    signature := ⟨toBe 32 0xdfb9b22830eccd59618e0b27e1d9f46bfb81dbc964a4be56edd05044cbee8090
      ++ toBe 32 0xa5f5e4fa73da5723f7c66ab928243ed5aa6ed6512f08d1168d1c8166596d730a, by
        rw [List.length_append, length_toBe, length_toBe]⟩ }

def firstScheme : Ed25519 :=
  .recorded recordedKey [(firstCheckpoint.payload, firstCheckpoint.signature)]

def firstPublication (between : List (MachineEvent firstScheme)) :
    List (MachineEvent firstScheme) :=
  .start (.capturePublishBind 1 () none fun _ =>
    plainRecord (.fill 16 7) (.fill 16 9) .checkpointPublished)
  :: (List.replicate 3 .step ++ between ++ List.replicate 6 .step)

def publicationOf (between : List (MachineEvent firstScheme)) : Machine :=
  Machine.run Sha256.sha256 (firstPublication between)
    (.initial (.new (.zero 16) .required) ∅ none)

theorem first_publication_placed :
    (publicationOf []).reported = some firstCheckpoint ∧
      placed Sha256.sha256 firstCheckpoint (publicationOf []).system.journal = true := by
  have hrun : (publicationOf []).reported = some firstCheckpoint ∧
      Machine.undisturbedRun Sha256.sha256 (firstPublication [])
        (.initial (.new (.zero 16) .required) ∅ none) = true := by
    decide +kernel
  exact ⟨hrun.1, run_reported_placed _ _ _ _ _ _ hrun.2 hrun.1⟩

def requestBetween : List (MachineEvent firstScheme) :=
  [.journal (.appendReceived (.fill 16 7) 1 plainRecipe
    (plainRecord (.fill 16 7) (.fill 16 1) .requestReceived))]

theorem append_between_displaces_binding :
    (publicationOf requestBetween).reported = some firstCheckpoint ∧
      placed Sha256.sha256 firstCheckpoint (publicationOf requestBetween).system.journal
        = false := by
  unfold publicationOf firstCheckpoint recordedCheckpoint
  rw [Sha256.sha256_eq_unrolled]
  decide +kernel

end Ferrocrate.Witness
