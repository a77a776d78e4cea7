import Ferrocrate.Lib.HashChain
import Ferrocrate.Witness.Encoding
import Ferrocrate.Witness.OperationState
import Ferrocrate.Witness.Recovery
import Mathlib.Logic.Function.Basic

/-! What a witness journal is for, without its trees, segments and files: a growing list of
records, numbered and linked, and the operations they are about. -/
namespace Ferrocrate.Witness
open Lib

def recordHash (sha256 : Hasher) (journalId : Id) (r : WitnessRecord) : Digest :=
  hashRecord sha256 ⟨journalId, recordLayout journalId r⟩

structure Ledger where
  entries : List WitnessRecord
  operations : OperationId → Option OperationState
  pending : OperationId → Option (UInt64 × RecoveryRecipe)
  epoch : UInt64

namespace Ledger
variable (sha256 : Hasher) (journalId : Id)

def empty : Ledger := ⟨[], fun _ => none, fun _ => none, 1⟩

def tip (l : Ledger) : Digest := HashChain.tip (recordHash sha256 journalId) (.zero 32) l.entries

def stamp (l : Ledger) (epoch : UInt64) (r : WitnessRecord) : WitnessRecord :=
  { r with
    epoch := epoch
    sequence := UInt64.ofNat (l.entries.length + 1)
    previousHash := l.tip sha256 journalId }

def extend (l : Ledger) (r : WitnessRecord) : Ledger := { l with entries := l.entries ++ [r] }

def Fresh (l : Ledger) (eventId : Id) : Prop := eventId ∉ l.entries.map WitnessRecord.eventId

def capacity : Nat := 2 ^ 48

structure WellFormed (l : Ledger) : Prop where
  numbered : ∀ i r, l.entries[i]? = some r → r.sequence.toNat = i + 1
  linked : HashChain.Linked WitnessRecord.previousHash (recordHash sha256 journalId) (.zero 32)
    l.entries
  distinct : (l.entries.map WitnessRecord.eventId).Nodup
  valid : ∀ r ∈ l.entries, validRecord r = true
  bounded : l.entries.length ≤ capacity

theorem wellFormed_empty : WellFormed sha256 journalId empty where
  numbered := by simp [empty]
  linked := trivial
  distinct := List.nodup_nil
  valid := by simp [empty]
  bounded := Nat.zero_le _

variable {sha256 journalId}

@[simp] theorem entries_extend (l : Ledger) (r : WitnessRecord) :
    (l.extend r).entries = l.entries ++ [r] := rfl

@[simp] theorem tip_extend (l : Ledger) (r : WitnessRecord) :
    (l.extend r).tip sha256 journalId = recordHash sha256 journalId r :=
  HashChain.tip_append_singleton _ _ _ _

section Stamp
variable (l : Ledger) (epoch : UInt64) (r : WitnessRecord)

/-! A stamp leaves alone what the lifecycle looks at. -/

@[simp] theorem stamp_epoch : (l.stamp sha256 journalId epoch r).epoch = epoch := rfl
@[simp] theorem stamp_eventId : (l.stamp sha256 journalId epoch r).eventId = r.eventId := rfl
@[simp] theorem stamp_requestId : (l.stamp sha256 journalId epoch r).requestId = r.requestId := rfl
@[simp] theorem stamp_stage : (l.stamp sha256 journalId epoch r).stage = r.stage := rfl
@[simp] theorem stamp_outcome : (l.stamp sha256 journalId epoch r).outcome = r.outcome := rfl
@[simp] theorem stamp_decision : (l.stamp sha256 journalId epoch r).decision = r.decision := rfl
@[simp] theorem stamp_decisionId :
    (l.stamp sha256 journalId epoch r).decisionId = r.decisionId := rfl
@[simp] theorem stamp_recoveryLink :
    (l.stamp sha256 journalId epoch r).recoveryLink = r.recoveryLink := rfl

end Stamp

theorem stamp_sequence {l : Ledger} (hb : l.entries.length + 1 ≤ capacity) (epoch : UInt64)
    (r : WitnessRecord) :
    (l.stamp sha256 journalId epoch r).sequence.toNat = l.entries.length + 1 := by
  have hc : capacity < 2 ^ 64 := by decide
  show (UInt64.ofNat _).toNat = _
  rw [UInt64.toNat_ofNat']
  exact Nat.mod_eq_of_lt (by omega)

theorem WellFormed.extend {l : Ledger} (h : WellFormed sha256 journalId l) {epoch : UInt64}
    {r : WitnessRecord} (hb : l.entries.length + 1 ≤ capacity) (hf : l.Fresh r.eventId)
    (hv : validRecord (l.stamp sha256 journalId epoch r) = true) :
    WellFormed sha256 journalId (l.extend (l.stamp sha256 journalId epoch r)) where
  numbered := by
    intro i x hx
    rw [entries_extend] at hx
    rcases Nat.lt_trichotomy i l.entries.length with hi | hi | hi
    · rw [List.getElem?_append_left hi] at hx
      exact h.numbered i x hx
    · subst hi
      simp only [List.getElem?_append_right (Nat.le_refl _), Nat.sub_self,
        List.getElem?_cons_zero, Option.some.injEq] at hx
      rw [← hx, stamp_sequence hb]
    · rw [List.getElem?_eq_none (by simp; omega)] at hx
      cases hx
  linked := HashChain.Linked.append_singleton _ _ h.linked rfl
  distinct := by
    rw [entries_extend, List.map_append, List.nodup_append]
    refine ⟨h.distinct, by simp, ?_⟩
    intro a ha b hb' hab
    simp only [List.map_cons, List.map_nil, List.mem_singleton] at hb'
    subst hab
    exact hf (hb' ▸ ha)
  valid := by
    intro x hx
    rcases List.mem_append.mp hx with hx | hx
    · exact h.valid x hx
    · rw [List.mem_singleton.mp hx]
      exact hv
  bounded := by simpa using hb

theorem WellFormed.of_entries {l l' : Ledger} (h : WellFormed sha256 journalId l)
    (he : l'.entries = l.entries) : WellFormed sha256 journalId l' :=
  ⟨he ▸ h.numbered, he ▸ h.linked, he ▸ h.distinct, he ▸ h.valid, he ▸ h.bounded⟩

end Ledger

inductive LedgerEvent where
  | received (id : OperationId) (record : WitnessRecord)
  | decided (id : OperationId)
  | denied (id : OperationId)
  | outcome (id : OperationId)
  | unknown (id : OperationId)
  | recovered (id : OperationId)
  | published

open Function in
inductive Ledger.Step (sha256 : Hasher) (journalId : Id) (epoch : UInt64) :
    LedgerEvent → Ledger → Ledger → Prop
  | received {l : Ledger} {id : OperationId} {generation : UInt64} {recipe : RecoveryRecipe}
      {record : WitnessRecord} (stage : record.stage = .requestReceived)
      (digest : recipe.preconditionDigest = record.requestDigest)
      (resourceGeneration : recipe.resourceGeneration = record.resourceGeneration)
      (action : recipe.originalAction = record.action)
      (kind : recipe.resourceKind = record.resourceKind)
      (new : l.operations id = none) (fresh : l.Fresh record.eventId)
      (valid : validRecord (l.stamp sha256 journalId epoch record) = true) :
      Step sha256 journalId epoch (.received id record) l
        { l.extend (l.stamp sha256 journalId epoch record) with
          operations := update l.operations id
            (some (.received sha256 (l.stamp sha256 journalId epoch record) generation))
          pending := update l.pending id (some (generation, recipe)) }
  | decided {l : Ledger} {id : OperationId} {generation : UInt64} {recipe : RecoveryRecipe}
      {state : OperationState} {record : WitnessRecord} {decisionId : Id}
      (stage : record.stage = .decision) (pending : l.pending id = some (generation, recipe))
      (readable : RecoveryRecipe.decode (recipe.encode generation) = some (generation, recipe))
      (operation : l.operations id = some state) (before : state.state = stateReceived)
      (binding : state.bindingMatches sha256 (l.stamp sha256 journalId epoch record) = true)
      (decision : record.decision = some true) (hdecision : record.decisionId = some decisionId)
      (fresh : l.Fresh record.eventId)
      (valid : validRecord (l.stamp sha256 journalId epoch record) = true) :
      Step sha256 journalId epoch (.decided id) l
        { l.extend (l.stamp sha256 journalId epoch record) with
          operations := update l.operations id (some { state with
            state := stateAllowed
            pendingGeneration := state.pendingGeneration + 1
            decisionId := decisionId
            decisionDigest := recordHash sha256 journalId (l.stamp sha256 journalId epoch record) }) }
  | denied {l : Ledger} {id : OperationId} {state : OperationState} {decision denied : WitnessRecord}
      (stage : decision.stage = .decision) (answer : decision.decision = some false)
      (deniedStage : denied.stage = .denied) (operation : l.operations id = some state)
      (before : state.state = stateReceived)
      (binding : state.bindingMatches sha256 (l.stamp sha256 journalId epoch decision) = true)
      (deniedBinding : state.bindingMatches sha256
        ((l.extend (l.stamp sha256 journalId epoch decision)).stamp sha256 journalId epoch denied)
          = true)
      (sameDecision : decision.decisionId = denied.decisionId)
      (fresh : l.Fresh decision.eventId) (deniedFresh : l.Fresh denied.eventId)
      (distinct : decision.eventId ≠ denied.eventId)
      (valid : validRecord (l.stamp sha256 journalId epoch decision) = true)
      (deniedValid : validRecord ((l.extend (l.stamp sha256 journalId epoch decision)).stamp
        sha256 journalId epoch denied) = true) :
      Step sha256 journalId epoch (.denied id) l
        { (l.extend (l.stamp sha256 journalId epoch decision)).extend
            ((l.extend (l.stamp sha256 journalId epoch decision)).stamp sha256 journalId epoch
              denied) with
          operations := update l.operations id (some { state with
            state := stateComplete
            pendingGeneration := state.pendingGeneration + 1 })
          pending := update l.pending id none }
  | outcome {l : Ledger} {id : OperationId} {state : OperationState} {record : WitnessRecord}
      (stage : record.stage = .outcome) (known : record.outcome ≠ .outcomeUnknown)
      (operation : l.operations id = some state) (before : state.state = stateAllowed)
      (pending : (l.pending id).isSome = true)
      (terminal : state.terminalMatches sha256 (l.stamp sha256 journalId epoch record) = true)
      (fresh : l.Fresh record.eventId)
      (valid : validRecord (l.stamp sha256 journalId epoch record) = true) :
      Step sha256 journalId epoch (.outcome id) l
        { l.extend (l.stamp sha256 journalId epoch record) with
          operations := update l.operations id (some { state with
            state := stateComplete
            unknownEventId := .zero 16
            pendingGeneration := state.pendingGeneration + 1 })
          pending := update l.pending id none }
  | unknown {l : Ledger} {id : OperationId} {state : OperationState} {record : WitnessRecord}
      (stage : record.stage = .outcome) (unknown : record.outcome = .outcomeUnknown)
      (operation : l.operations id = some state) (before : state.state = stateAllowed)
      (terminal : state.terminalMatches sha256 (l.stamp sha256 journalId epoch record) = true)
      (fresh : l.Fresh record.eventId)
      (valid : validRecord (l.stamp sha256 journalId epoch record) = true) :
      Step sha256 journalId epoch (.unknown id) l
        { l.extend (l.stamp sha256 journalId epoch record) with
          operations := update l.operations id (some { state with
            state := stateUnknown
            unknownEventId := record.eventId
            pendingGeneration := state.pendingGeneration + 1 }) }
  | recovered {l : Ledger} {id : OperationId} {state : OperationState} {record : WitnessRecord}
      (stage : record.stage = .recovery) (operation : l.operations id = some state)
      (before : state.state = stateUnknown)
      (terminal : state.terminalMatches sha256 (l.stamp sha256 journalId epoch record) = true)
      (link : record.recoveryLink = some state.unknownEventId) (fresh : l.Fresh record.eventId)
      (valid : validRecord (l.stamp sha256 journalId epoch record) = true) :
      Step sha256 journalId epoch (.recovered id) l
        { l.extend (l.stamp sha256 journalId epoch record) with
          operations := update l.operations id (some { state with
            state := stateComplete
            pendingGeneration := state.pendingGeneration + 1 })
          pending := update l.pending id none }
  | published {l : Ledger} {record : WitnessRecord} (stage : record.stage = .checkpointPublished)
      (fresh : l.Fresh record.eventId)
      (valid : validRecord (l.stamp sha256 journalId epoch record) = true) :
      Step sha256 journalId epoch .published l (l.extend (l.stamp sha256 journalId epoch record))

namespace Ledger
variable {sha256 : Hasher} {journalId : Id} {e : LedgerEvent} {epoch : UInt64}
  {l l' : Ledger}

theorem Step.entries_append
    (h : Step sha256 journalId epoch e l l') :
    ∃ new, l'.entries = l.entries ++ new ∧ ∀ r ∈ new, r.epoch = epoch := by
  cases h
  case denied => exact ⟨_, List.append_assoc _ _ _, by simp [stamp]⟩
  all_goals exact ⟨_, rfl, by simp [stamp]⟩

theorem Step.epoch_eq
    (h : Step sha256 journalId epoch e l l') : l'.epoch = l.epoch := by
  cases h <;> rfl

end Ledger
end Ferrocrate.Witness
