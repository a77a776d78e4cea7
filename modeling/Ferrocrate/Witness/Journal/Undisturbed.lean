import Ferrocrate.Witness.Journal.Session

/-! What every operation of a journal but a recovery leaves alone: the cleanup reserve, the
reservation in flight and the marks of a stopped automation. -/
namespace Ferrocrate.Witness
open Lib Lib.Program Journal

def Meta.guard (m : Meta) : UInt64 × Option (OperationId × UInt64) × Bool :=
  (m.reserve, m.reserveInflight, m.automationStopped)

structure Undisturbed (I : WitnessJournal → Prop) : Prop where
  faults : ∀ j faults, I j → I { j with faults := faults }
  mirror : ∀ j mirror, I j → I { j with mirror := mirror }
  epoch : ∀ j epoch, I j → I { j with epoch := epoch }
  store : ∀ j s, s.metadata.guard = j.store.metadata.guard → I j → I { j with store := s }

namespace Undisturbed
variable {I : WitnessJournal → Prop} (h : Undisturbed I)
include h

theorem transaction {body : Store → Except JournalError Store}
    (hbody : ∀ s s', body s = .ok s' → s'.metadata.guard = s.metadata.guard) :
    Preserves I (Journal.transaction body) := by
  intro j hj
  rw [wp_transaction]
  exact ⟨fun s hs => ⟨fun _ => h.store j s (hbody _ _ hs) hj, fun _ => hj⟩, fun _ _ => hj⟩

theorem modifyMeta {f : Meta → Meta} (hf : ∀ m, (f m).guard = m.guard) :
    Preserves I (Journal.modifyMeta f) :=
  preserves_modify fun j hj => h.store j _ (hf _) hj

theorem failAt (point : FaultPoint) (e : JournalError) : Preserves I (Journal.failAt point e) :=
  failAt_preserves h.faults point e

theorem flush (boundary : FlushBoundary) (id : OperationId) :
    Preserves I (Journal.flush boundary id) :=
  flush_preserves h.faults boundary id

theorem preflight (boundary : FlushBoundary) : Preserves I (Journal.preflight boundary) :=
  preserves_get.bind fun _ => (preserves_rejectIf _ _).bind fun _ =>
    (h.failAt _ _).bind fun _ => h.failAt _ _

theorem updateReadMirror : Preserves I updateReadMirrorBestEffort :=
  fun _ hj => wp_mono (updateReadMirrorBestEffort_returns h.mirror hj) (fun _ _ hj => hj)
    fun _ _ hf => hf.elim

theorem sealActiveSegment (force : Bool) : Preserves I (Journal.sealActiveSegment force) := by
  refine (h.failAt _ _).bind fun _ => preserves_get.bind fun j => preserves_ite (preserves_pure ()) ?_
  refine (preserves_okOr _ _).bind fun next => h.transaction fun s s' hs => ?_
  simp only [Except.ite_error_eq_ok] at hs
  obtain ⟨-, -, hs⟩ := hs
  cases hs
  rfl

theorem ensureUserCapacity (additional : Nat) : Preserves I (Journal.ensureUserCapacity additional) :=
  preserves_get.bind fun _ => (preserves_rejectIf _ _).bind fun _ => (preserves_okOr _ _).bind fun _ =>
    (preserves_rejectIf _ _).bind fun _ => ((h.sealActiveSegment true).failingWith _).runIf _

theorem postAckRotation : Preserves I Journal.postAckRotation := by
  refine (h.sealActiveSegment false).attempt.bind fun sealed => ?_
  cases sealed with
  | error e => exact h.modifyMeta fun _ => rfl
  | ok u => exact h.modifyMeta fun _ => rfl

section Calls
variable (sha256 : Hasher) (epoch : UInt64) (id : OperationId)

theorem appendReceivedAt (generation : UInt64) (recipe : RecoveryRecipe) (record : WitnessRecord) :
    Preserves I (Journal.appendReceivedAt sha256 epoch id generation recipe record) := by
  refine (preserves_rejectIf _ _).bind fun _ => (preserves_rejectIf _ _).bind fun _ =>
    (h.preflight _).bind fun _ => preserves_get.bind fun j => (preserves_rejectIf _ _).bind fun _ => ?_
  refine (preserves_ofExcept _ _).bind fun bytes => (h.ensureUserCapacity _).bind fun _ =>
    (h.transaction fun s s' hs => ?_).bind fun _ => (h.flush _ _).bind fun _ =>
    h.updateReadMirror.bind fun _ => h.postAckRotation
  simp only [Except.ite_error_eq_ok] at hs
  obtain ⟨-, -, -, hs⟩ := hs
  cases hs
  rfl

theorem appendDecisionRecord (record : WitnessRecord) (state : OperationState) :
    Preserves I (Journal.appendDecisionRecord sha256 id record state) := by
  refine preserves_get.bind fun j => ?_
  refine (preserves_ofExcept _ _).bind fun bytes => (h.ensureUserCapacity _).bind fun _ =>
    (preserves_okOr _ _).bind fun _ => (h.transaction fun s s' hs => ?_).bind fun _ => preserves_pure _
  simp only [Except.ite_error_eq_ok] at hs
  obtain ⟨-, -, hs⟩ := hs
  cases hs
  rfl

theorem appendDecisionAt (record : WitnessRecord) :
    Preserves I (Journal.appendDecisionAt sha256 epoch id record) := by
  refine (preserves_rejectIf _ _).bind fun _ => (h.preflight _).bind fun _ =>
    preserves_get.bind fun j => (preserves_okOr _ _).bind fun _ => (preserves_okOr _ _).bind fun _ => ?_
  refine (preserves_okOr _ _).bind fun _ => (preserves_okOr _ _).bind fun _ =>
    (preserves_rejectIf _ _).bind fun _ => (preserves_rejectIf _ _).bind fun _ =>
    (preserves_rejectIf _ _).bind fun _ => (preserves_okOr _ _).bind fun _ => ?_
  exact (h.appendDecisionRecord sha256 id _ _).bind fun _ => (h.flush _ _).bind fun _ =>
    h.updateReadMirror.bind fun _ => h.postAckRotation.bind fun _ =>
    preserves_get.bind fun _ => preserves_pure _

theorem denyAt (decision denied : WitnessRecord) :
    Preserves I (Journal.denyAt sha256 epoch id decision denied) := by
  refine (preserves_rejectIf _ _).bind fun _ => (h.preflight _).bind fun _ =>
    preserves_get.bind fun j => (preserves_okOr _ _).bind fun _ => (preserves_okOr _ _).bind fun _ =>
    (preserves_rejectIf _ _).bind fun _ => ?_
  refine (preserves_ofExcept _ _).bind fun _ => (preserves_ofExcept _ _).bind fun _ =>
    (h.ensureUserCapacity _).bind fun _ => (h.transaction fun s s' hs => ?_).bind fun _ =>
    (h.flush _ _).bind fun _ => h.updateReadMirror.bind fun _ => h.postAckRotation
  simp only [Except.ite_error_eq_ok] at hs
  obtain ⟨-, -, hs⟩ := hs
  cases hs
  rfl

theorem completeChecked (state : OperationState) (record : WitnessRecord) (forcedUnknown : Bool) :
    Preserves I (Journal.completeChecked sha256 id state record forcedUnknown) := by
  refine preserves_get.bind fun j => ?_
  refine (preserves_ofExcept _ _).bind fun bytes => (h.ensureUserCapacity _).bind fun _ =>
    (h.transaction fun s s' hs => ?_).bind fun _ => preserves_ite ?_ ?_
  · simp only [Except.ite_error_eq_ok] at hs
    obtain ⟨-, -, -, hs⟩ := hs
    cases hs
    rfl
  · exact h.updateReadMirror.bind fun _ => preserves_throw _
  · exact (h.flush _ _).bind fun _ => h.updateReadMirror.bind fun _ => h.postAckRotation

theorem completeAt (intent : DurableIntent) (record : WitnessRecord) :
    Preserves I (Journal.completeAt sha256 epoch intent record) := by
  have htake : Preserves I (takeFault (.beforeFlush .outcome)) := fun j hj => h.faults j _ hj
  refine (preserves_rejectIf _ _).bind fun _ => (h.preflight _).bind fun _ =>
    preserves_get.bind fun j => (preserves_rejectIf _ _).bind fun _ => (preserves_okOr _ _).bind fun _ =>
    (preserves_okOr _ _).bind fun _ => (preserves_rejectIf _ _).bind fun _ =>
    (preserves_rejectIf _ _).bind fun _ => htake.bind fun _ => preserves_ite ?_ ?_
  · exact h.completeChecked sha256 _ _ _ _
  · exact h.completeChecked sha256 _ _ _ _

theorem recordOutcomeUnknownAt (record : WitnessRecord) :
    Preserves I (Journal.recordOutcomeUnknownAt sha256 epoch id record) := by
  refine (preserves_rejectIf _ _).bind fun _ => (h.preflight _).bind fun _ =>
    preserves_get.bind fun j => (preserves_okOr _ _).bind fun _ => (preserves_okOr _ _).bind fun _ =>
    preserves_ite ((h.flush _ _).bind fun _ => preserves_throw _) ?_
  refine (preserves_rejectIf _ _).bind fun _ => ?_
  refine (preserves_ofExcept _ _).bind fun bytes => (h.ensureUserCapacity _).bind fun _ =>
    (h.transaction fun s s' hs => ?_).bind fun _ => (h.flush _ _).bind fun _ => h.postAckRotation
  simp only [Except.ite_error_eq_ok] at hs
  obtain ⟨-, -, hs⟩ := hs
  cases hs
  rfl

theorem publishLocked (artifactDigest : Digest) (record : WitnessRecord) :
    Preserves I (Journal.publishLocked sha256 artifactDigest record) := by
  refine preserves_get.bind fun j => (preserves_rejectIf _ _).bind fun _ => ?_
  split
  · exact (preserves_okOr _ _).bind fun _ => (preserves_ofExcept _ _).bind fun _ =>
      preserves_rejectIf _ _
  · refine (h.preflight _).bind fun _ => (h.failAt _ _).bind fun _ => preserves_get.bind fun j => ?_
    refine (preserves_okOr _ _).bind fun _ => (preserves_ofExcept _ _).bind fun _ =>
      (h.ensureUserCapacity _).bind fun _ => (h.transaction fun s s' hs => ?_).bind fun _ =>
      (h.flush _ _).bind fun _ => h.updateReadMirror
    simp only [Except.ite_error_eq_ok] at hs
    obtain ⟨-, -, hs⟩ := hs
    cases hs
    rfl

end Calls

theorem call (sha256 : Hasher) (op : Operation)
    (hop : ∀ id record, op ≠ .completeRecovery id record) : Preserves I (op.call sha256) := by
  cases op with
  | appendReceived id generation recipe record =>
    have hcall : Preserves I (Journal.appendReceived sha256 id generation recipe record) :=
      preserves_get.bind fun j => h.appendReceivedAt sha256 j.epoch id generation recipe record
    exact hcall
  | appendDecision id record =>
    have hcall : Preserves I (Journal.appendDecision sha256 id record) :=
      preserves_get.bind fun j => h.appendDecisionAt sha256 j.epoch id record
    exact hcall.bind fun _ => preserves_pure ()
  | deny id decision denied =>
    have hcall : Preserves I (Journal.deny sha256 id decision denied) :=
      preserves_get.bind fun j => h.denyAt sha256 j.epoch id decision denied
    exact hcall
  | complete intent record =>
    have hcall : Preserves I (Journal.complete sha256 intent record) :=
      preserves_get.bind fun j => h.completeAt sha256 j.epoch intent record
    exact hcall
  | recordOutcomeUnknown id record =>
    have hcall : Preserves I (Journal.recordOutcomeUnknown sha256 id record) :=
      preserves_get.bind fun j => h.recordOutcomeUnknownAt sha256 j.epoch id record
    exact hcall
  | completeRecovery id record => exact absurd rfl (hop id record)
  | appendCheckpointPublication artifactDigest record =>
    have hcall : Preserves I (Journal.appendCheckpointPublication sha256 artifactDigest record) :=
      (preserves_rejectIf _ _).bind fun _ => (preserves_ofExcept _ _).bind fun _ =>
        h.publishLocked sha256 artifactDigest _
    exact hcall
  | maintain => exact h.sealActiveSegment true
  | advanceEpoch expected =>
    have hcall : Preserves I (Journal.advanceEpoch expected) :=
      preserves_get.bind fun _ => (preserves_rejectIf _ _).bind fun _ =>
        (preserves_okOr _ _).bind fun next =>
        (h.modifyMeta (f := fun m => { m with epoch := next }) fun _ => rfl).bind fun _ =>
        (preserves_modify fun j hj => h.epoch j next hj).bind fun _ => preserves_pure _
    exact hcall.bind fun _ => preserves_pure ()
  | failOnce point => exact preserves_modify fun j hj => h.faults j _ hj

end Undisturbed
end Ferrocrate.Witness
