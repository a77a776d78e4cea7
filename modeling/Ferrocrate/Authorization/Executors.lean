import Ferrocrate.Image.Permits
import Ferrocrate.Volume.Permits
import Ferrocrate.Witness.Journal.Reconcilable

/-! The executors of the image and the volume store: exactly which calls close the permits they
consume. -/
namespace Ferrocrate.Authorization
open Lib
open Witness

section Calls
variable (sha256 : Hasher) (config : JournalConfig) {ε S L α : Type} [FinishLabel L]

structure Proceeds (l : Ledger) (permits : List SurfacePermit)
    (p : Process (PermitWorld ε S) L α) (w : PermitWorld ε S) : Prop where
  refines : Refines sha256 config l w.journal
  issued : ∀ permit ∈ permits, Issued permit
  distinct : (permits.map (·.operation)).Nodup
  appends : NoAppendFails sha256 p w

def ClosesPermits (l : Ledger) (permits : List SurfacePermit) (committed : S → Prop)
    (p : Process (PermitWorld ε S) L α) (w : PermitWorld ε S) : Prop :=
  ∃ l', Refines sha256 config l' (p.run w).2.journal ∧
    ∀ permit ∈ permits, Closed l l' permit (committed (p.run w).2.store)

variable {sha256 config}

theorem Ends.closesPermits_iff {l : Ledger} {permits : List SurfacePermit} {settles : Prop}
    {committed : S → Prop} {p : Process (PermitWorld ε S) L α} {w : PermitWorld ε S}
    (hends : Ends sha256 (fun _ w' fs => Finished permits settles committed w' fs) p w)
    (h : Proceeds sha256 config l permits p w) :
    ClosesPermits sha256 config l permits committed p w ↔ settles ∨ permits = [] :=
  hends.closed_iff h.refines h.issued h.distinct h.appends

end Calls

/-- A call closes its permits exactly when it comes past the checks that drop them, and a removal
finds what it removes. -/
theorem permits_closed_iff (sha256 : Hasher) (config : JournalConfig) (l : Ledger) :
    (∀ (call : Image.ExecutorCall) (w : Image.ImageWorld),
      Proceeds sha256 config l call.permits (call.process sha256) w →
      (ClosesPermits sha256 config l call.permits (call.Committed w.store) (call.process sha256) w ↔
        call.Settles sha256 w ∨ call.permits = [])) ∧
    ∀ (F : Type) (host : Volume.VolumeHost F) (call : Volume.ExecutorCall)
      (w : Volume.VolumeWorld F),
      Proceeds sha256 config l call.permits (call.process host sha256) w →
      (ClosesPermits sha256 config l call.permits (fun s => call.Committed host w s)
        (call.process host sha256) w ↔ call.Settles sha256 w) := by
  constructor
  · intro call w h
    exact (call.ends w).closesPermits_iff h
  · intro F host call w h
    refine ((call.ends w).closesPermits_iff h).trans (or_iff_left ?_)
    cases call <;> exact List.cons_ne_nil _ _

/-! A permit for the deletion of app:1 at sha256:aa, as it is issued. -/

def deletionRecipe : RecoveryRecipe where
  originalAction := .imageDelete
  resourceKind := .image
  action := .imageDelete
  preconditionDigest := .zero 32
  resourceGeneration := 1
  truthStrategy := .inversePrecondition
  observationDigest := .zero 32
  observationHandle := .zero 16
  inverse := rfl
  strategy := rfl

def deletionRecord (eventId : Id) (stage : WitnessStage) : WitnessRecord :=
  { plainRecord (.fill 16 7) eventId stage with
    action := .imageDelete
    resourceKind := .image }

def issuedDeletion : Except JournalError DurableIntent × WitnessJournal :=
  Journal.appendDecision Sha256.sha256 (.fill 16 7) (deletionRecord (.fill 16 2) .decision)
    (runJournal Sha256.sha256
      [.appendReceived (.fill 16 7) 1 deletionRecipe (deletionRecord (.fill 16 1) .requestReceived)]
      (.create (.new (.zero 16) .required) ∅))

def issuedPermit : SurfacePermit :=
  { Image.deletePermit "app:1" "sha256:aa" with
    durability := match issuedDeletion.1 with
      | .ok intent => .required intent
      | .error _ => .disabled
    operation := .fill 16 7
    decisionId := some (.zero 16)
    template := deletionRecord (.fill 16 3) .requestReceived }

def issuedWorld : Image.ImageWorld :=
  ⟨(Image.storeOf [Image.tagged "sha256:aa"]).store, issuedDeletion.2, []⟩

theorem issued_deletion :
    issuedDeletion.1.toOption.map (·.operationId) = some (.fill 16 7) ∧
    ∃ state ∈ storedState issuedDeletion.2 (.fill 16 7), state.state = stateAllowed := by
  unfold issuedDeletion
  rw [Sha256.sha256_eq_unrolled]
  decide +kernel

section Deletion
variable {l : Ledger} {permit : SurfacePermit} {w : Image.ImageWorld} (digest : String)

theorem deletion_proceeds
    (hrefines : Refines Sha256.sha256 (.new (.zero 16) .required) l w.journal)
    (hissued : Issued permit)
    (happends : NoAppendFails Sha256.sha256
      ((Image.ExecutorCall.removeReference "app:1" digest permit).process Sha256.sha256) w) :
    Proceeds Sha256.sha256 (.new (.zero 16) .required) l
      (Image.ExecutorCall.removeReference "app:1" digest permit).permits
      ((Image.ExecutorCall.removeReference "app:1" digest permit).process Sha256.sha256) w where
  refines := hrefines
  issued := fun _ hpermit => List.mem_singleton.mp hpermit ▸ hissued
  distinct := List.nodup_singleton _
  appends := happends

theorem mismatched_deletion_open (hdigest : permit.proof.imageDigest ≠ some digest)
    (h : Proceeds Sha256.sha256 (.new (.zero 16) .required) l
      (Image.ExecutorCall.removeReference "app:1" digest permit).permits
      ((Image.ExecutorCall.removeReference "app:1" digest permit).process Sha256.sha256) w) :
    ¬ClosesPermits Sha256.sha256 (.new (.zero 16) .required) l
      (Image.ExecutorCall.removeReference "app:1" digest permit).permits
      ((Image.ExecutorCall.removeReference "app:1" digest permit).Committed w.store)
      ((Image.ExecutorCall.removeReference "app:1" digest permit).process Sha256.sha256) w := by
  intro hcloses
  cases ((Image.ExecutorCall.ends _ w).closesPermits_iff h).mp hcloses with
  | inl hsettles => exact hdigest hsettles.1.2
  | inr hempty => cases hempty

end Deletion

theorem issuedPermit_issued : Issued issuedPermit where
  required := by
    have hissued := issued_deletion.1
    cases hintent : issuedDeletion.1 with
    | error e =>
      rw [hintent] at hissued
      cases hissued
    | ok intent =>
      rw [hintent] at hissued
      refine ⟨intent, ?_, Option.some.inj hissued⟩
      rw [issuedPermit, hintent]
  template := rfl

theorem issued_ledger :
    ∃ l, Refines Sha256.sha256 (.new (.zero 16) .required) l issuedWorld.journal ∧
      Allowed l issuedPermit := by
  obtain ⟨l₁, hreceived, -⟩ := runJournal_refines
    [.appendReceived (.fill 16 7) 1 deletionRecipe (deletionRecord (.fill 16 1) .requestReceived)]
    (create_refines Sha256.sha256 (.new (.zero 16) .required) ∅)
  obtain ⟨l, hdecided, -⟩ := Operation.apply_refines
    (.appendDecision (.fill 16 7) (deletionRecord (.fill 16 2) .decision)) hreceived
  have hjournal : Refines Sha256.sha256 (.new (.zero 16) .required) l issuedDeletion.2 := by
    rw [Operation.apply, Operation.call, Operation.after_discard] at hdecided
    exact hdecided
  obtain ⟨state, hstate, hallowed⟩ := issued_deletion.2
  rw [hjournal.storedState_eq] at hstate
  refine ⟨l, ?_, state, hstate, hallowed⟩
  simp only [issuedWorld]
  exact hjournal

/-- The permit passed in for sha256:bb is dropped, and its operation stays open. -/
theorem mismatched_permit_left_open :
    ∃ l, Allowed l issuedPermit ∧
      let call := Image.ExecutorCall.removeReference "app:1" "sha256:bb" issuedPermit
      Proceeds Sha256.sha256 (.new (.zero 16) .required) l call.permits
        (call.process Sha256.sha256) issuedWorld ∧
      ¬ClosesPermits Sha256.sha256 (.new (.zero 16) .required) l call.permits
        (call.Committed issuedWorld.store) (call.process Sha256.sha256) issuedWorld := by
  obtain ⟨l, hrefines, hallowed⟩ := issued_ledger
  have hproceeds := deletion_proceeds "sha256:bb" hrefines issuedPermit_issued (by decide +kernel)
  exact ⟨l, hallowed, hproceeds, mismatched_deletion_open "sha256:bb" (by decide +kernel) hproceeds⟩

/-- The permit passed in for sha256:aa is closed. -/
theorem permits_closed_iff_deletion :
    ∃ l, Allowed l issuedPermit ∧
      let call := Image.ExecutorCall.removeReference "app:1" "sha256:aa" issuedPermit
      ClosesPermits Sha256.sha256 (.new (.zero 16) .required) l call.permits
        (call.Committed issuedWorld.store) (call.process Sha256.sha256) issuedWorld := by
  obtain ⟨l, hrefines, hallowed⟩ := issued_ledger
  have hproceeds := deletion_proceeds "sha256:aa" hrefines issuedPermit_issued (by
    unfold issuedWorld issuedPermit issuedDeletion
    rw [Sha256.sha256_eq_unrolled]
    decide +kernel)
  refine ⟨l, hallowed, ((permits_closed_iff Sha256.sha256 (.new (.zero 16) .required) l).1
    (.removeReference "app:1" "sha256:aa" issuedPermit) issuedWorld hproceeds).mpr (.inl ?_)⟩
  exact ⟨⟨by decide +kernel, rfl⟩, fun _ => ⟨_, rfl, rfl⟩⟩

end Ferrocrate.Authorization
