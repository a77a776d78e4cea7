import Ferrocrate.Lib.Loops
import Ferrocrate.Lib.Sha256
import Ferrocrate.Witness.Journal.Session
import Ferrocrate.Witness.RecoveryCodec

/-! The pending operations of a journal (`WitnessJournal::pending`), and the recipes that do not
come back from their durable form. -/
namespace Ferrocrate.Witness
open Lib Lib.Program Lib.Reader Journal

namespace Journal

def pending (j : WitnessJournal) : Except JournalError (List PendingOperation) :=
  j.store.pending.entries.mapM fun entry =>
    match RecoveryRecipe.decode entry.2 with
    | none => .error .corrupt
    | some (executionGeneration, recipe) => .ok ⟨entry.1, executionGeneration, recipe⟩

theorem pending_eq_ok_iff (j : WitnessJournal) :
    (∃ operations, pending j = .ok operations) ↔
      ∀ id bytes, j.store.pending.get id = some bytes → RecoveryRecipe.decode bytes ≠ none := by
  rw [pending, Except.mapM_ok_iff]
  constructor
  · intro h id bytes hget hnone
    obtain ⟨_, hread⟩ := h (id, bytes) ((Tree.get_eq_some_iff _).mp hget)
    simp only [hnone] at hread
    cases hread
  · intro h entry hentry
    have hread := h entry.1 entry.2 ((Tree.get_eq_some_iff _).mpr hentry)
    cases hdecode : RecoveryRecipe.decode entry.2 with
    | none => exact absurd hdecode hread
    | some decoded => exact ⟨_, rfl⟩

end Journal

variable {sha256 : Hasher} {config : JournalConfig} {l : Ledger} {j : WitnessJournal}

def Ledger.Readable (l : Ledger) : Prop :=
  ∀ id generation recipe, l.pending id = some (generation, recipe) →
    recipe.originalAction.Readable

theorem Refines.pending_ok_iff (h : Refines sha256 config l j) :
    (∃ operations, Journal.pending j = .ok operations) ↔ l.Readable := by
  rw [Journal.pending_eq_ok_iff]
  constructor
  · intro hread id generation recipe hpending
    refine (RecoveryRecipe.decode_encode_ne_none_iff recipe generation).mp (hread id _ ?_)
    rw [h.represents.pending, hpending]
    rfl
  · intro hread id bytes hget
    rw [h.represents.pending] at hget
    obtain ⟨⟨generation, recipe⟩, hpending, rfl⟩ := Option.map_eq_some_iff.mp hget
    exact (RecoveryRecipe.decode_encode_ne_none_iff recipe generation).mpr (hread id generation recipe hpending)

theorem Refines.pending_ok_iff_stored (h : Refines sha256 config l j) :
    (∃ operations, Journal.pending j = .ok operations) ↔
      ∀ id generation (recipe : RecoveryRecipe),
        j.store.pending.get id = some (recipe.encode generation) →
          recipe.originalAction.Readable := by
  rw [Journal.pending_eq_ok_iff]
  constructor
  · intro hread id generation recipe hget
    exact (RecoveryRecipe.decode_encode_ne_none_iff recipe generation).mp (hread id _ hget)
  · intro hread id bytes hget
    have hstored := hget
    rw [h.represents.pending] at hstored
    obtain ⟨⟨generation, recipe⟩, -, rfl⟩ := Option.map_eq_some_iff.mp hstored
    exact (RecoveryRecipe.decode_encode_ne_none_iff recipe generation).mpr
      (hread id generation recipe hget)

def SessionStep.Readable : SessionStep → Prop
  | .call (.appendReceived _ _ _ record) => record.action.Readable
  | _ => True

open Function in
theorem Ledger.Step.readable {journalId : Id} {epoch : UInt64} {e : LedgerEvent} {l l' : Ledger}
    (h : Ledger.Step sha256 journalId epoch e l l')
    (hrecord : ∀ id record, e = .received id record → record.action.Readable)
    (hl : l.Readable) : l'.Readable := by
  have hold (id : OperationId) : ({ l with pending := update l.pending id none } : Ledger).Readable := by
    intro id' generation recipe hpending
    by_cases hid : id' = id
    · simp [hid] at hpending
    · exact hl id' generation recipe (by simpa [update_of_ne hid] using hpending)
  cases h with
  | @received _ id _ _ _ stage digest resourceGeneration action =>
    intro id' generation' recipe' hpending
    by_cases hid : id' = id
    · subst hid
      simp only [update_self, Option.some.injEq, Prod.mk.injEq] at hpending
      obtain ⟨-, rfl⟩ := hpending
      rw [action]
      exact hrecord _ _ rfl
    · exact hl id' generation' recipe' (by simpa [update_of_ne hid] using hpending)
  | denied => exact hold _
  | outcome => exact hold _
  | recovered => exact hold _
  | decided => exact hl
  | unknown => exact hl
  | published => exact hl

theorem runSession_readable (steps : List SessionStep) (hsteps : ∀ step ∈ steps, step.Readable)
    (h : Refines sha256 config l j) (hl : l.Readable) :
    ∃ l', Refines sha256 config l' (runSession sha256 steps j) ∧ l'.Readable := by
  refine runSession_refines steps (fun op l l' hop hmoves hl => ?_) h hl
  cases hmoves with
  | idle => exact hl
  | advance call next_eq => exact hl
  | commit mem step =>
    refine step.readable (fun id record he => ?_) hl
    subst he
    cases op with
    | appendReceived id' generation recipe record' =>
      cases List.mem_singleton.mp mem
      exact hsteps _ hop
    | _ => simp [Operation.events] at mem

/-- The recovery codec: which recipes come back, that nothing else is accepted, and when the
pending operations of a journal can be read, whatever its calls, faults and restarts were. -/
theorem recovery_codec (sha256 : Hasher) (config : JournalConfig)
    (faults : Finset FaultPoint) :
    (∀ (r : RecoveryRecipe) (generation : UInt64),
      RecoveryRecipe.decode (r.encode generation) = some (generation, r) ↔
        r.originalAction.Readable) ∧
    (∀ bytes generation r, RecoveryRecipe.decode bytes = some (generation, r) →
      r.encode generation = bytes) ∧
    (∀ steps, (∃ operations, Journal.pending
        (runSession sha256 steps (.create config faults)) = .ok operations) ↔
      ∀ id generation (recipe : RecoveryRecipe),
        (runSession sha256 steps (.create config faults)).store.pending.get id
          = some (recipe.encode generation) → recipe.originalAction.Readable) ∧
    ∀ steps, (∀ step ∈ steps, step.Readable) → ∃ operations, Journal.pending
      (runSession sha256 steps (.create config faults)) = .ok operations := by
  have hcreate := create_refines sha256 config faults
  refine ⟨RecoveryRecipe.decode_encode_iff, fun _ _ _ => RecoveryRecipe.decode_exact,
    fun steps => ?_, fun steps hsteps => ?_⟩
  · obtain ⟨l, h, -⟩ := runSession_refines (P := fun _ => True) steps (fun _ _ _ _ _ h => h)
      hcreate trivial
    exact h.pending_ok_iff_stored
  · have hempty : Ledger.Readable .empty := fun _ _ _ hpending => nomatch hpending
    obtain ⟨l, h, hl⟩ := runSession_readable steps hsteps hcreate hempty
    exact h.pending_ok_iff.mpr hl

def containerStartRecipe : RecoveryRecipe :=
  { plainRecipe with
    originalAction := .containerStart
    truthStrategy := .restartObserved
    inverse := rfl
    strategy := rfl }

def containerStart : Operation :=
  .appendReceived (.fill 16 7) 1 containerStartRecipe
    { plainRecord (.fill 16 7) (.fill 16 1) .requestReceived with action := .containerStart }

/-- One received container start, which the journal accepts, hides every pending operation. -/
theorem container_start_not_readable :
    RecoveryRecipe.decode (containerStartRecipe.encode 1) = none ∧
    (containerStart.call Sha256.sha256 (.create (.new (.zero 16) .required) ∅)).1 = .ok () ∧
    Journal.pending (runSession Sha256.sha256 [.call containerStart]
      (.create (.new (.zero 16) .required) ∅)) = .error .corrupt := by
  rw [Sha256.sha256_eq_unrolled]
  decide +kernel

end Ferrocrate.Witness
