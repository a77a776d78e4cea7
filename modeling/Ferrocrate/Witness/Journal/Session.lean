import Ferrocrate.Witness.Journal.Run

/-! A journal over several lives: calls in any order and with any faults, and openings of the
directory, with any faults set anew and the read mirror left open. -/
namespace Ferrocrate.Witness
open Lib Lib.Program Journal

inductive SessionStep where
  | call (op : Operation)
  | reopen (faults : Finset FaultPoint) (mirror : ReadMirror)

namespace SessionStep
variable (sha256 : Hasher)

def apply (step : SessionStep) (j : WitnessJournal) : WitnessJournal :=
  match step with
  | call op => op.apply sha256 j
  | reopen faults mirror =>
    match j.reopen faults mirror with
    | .error _ => j
    | .ok j' => j'

end SessionStep

def runSession (sha256 : Hasher) (steps : List SessionStep) (j : WitnessJournal) :
    WitnessJournal :=
  steps.foldl (fun j step => step.apply sha256 j) j

variable {sha256 : Hasher} {config : JournalConfig} {l : Ledger} {j : WitnessJournal}

theorem SessionStep.apply_refines (step : SessionStep) (h : Refines sha256 config l j) :
    ∃ l', Refines sha256 config l' (step.apply sha256 j) ∧
      (l' = l ∨ ∃ op, step = .call op ∧ op.Moves sha256 config.journalId l l') := by
  cases step with
  | call op =>
    obtain ⟨l', hl', hmoves⟩ := op.apply_refines h
    exact ⟨l', hl', .inr ⟨op, rfl, hmoves⟩⟩
  | reopen faults mirror =>
    cases hopen : j.reopen faults mirror with
    | error e => exact ⟨l, by simpa only [SessionStep.apply, hopen] using h, .inl rfl⟩
    | ok j' => exact ⟨l, by simpa only [SessionStep.apply, hopen] using h.reopen hopen, .inl rfl⟩

theorem runSession_refines {P : Ledger → Prop} (steps : List SessionStep)
    (hstep : ∀ op l l', .call op ∈ steps → op.Moves sha256 config.journalId l l' → P l → P l')
    (h : Refines sha256 config l j) (hP : P l) :
    ∃ l', Refines sha256 config l' (runSession sha256 steps j) ∧ P l' := by
  induction steps generalizing l j with
  | nil => exact ⟨l, h, hP⟩
  | cons step steps ih =>
    obtain ⟨m, hm, hmoves⟩ := step.apply_refines h
    have hPm : P m := by
      obtain rfl | ⟨op, rfl, hop⟩ := hmoves
      · exact hP
      · exact hstep op l m List.mem_cons_self hop hP
    exact ih (fun op l l' hop => hstep op l l' (List.mem_cons_of_mem _ hop)) hm hPm

inductive OperationState.Move : OperationState → OperationState → Prop
  | allowed {st : OperationState} (decisionId : Id) (decisionDigest : Digest)
      (before : st.state = stateReceived) :
      Move st { st with
        state := stateAllowed
        pendingGeneration := st.pendingGeneration + 1
        decisionId := decisionId
        decisionDigest := decisionDigest }
  | unknown {st : OperationState} (eventId : Id) (before : st.state = stateAllowed) :
      Move st { st with
        state := stateUnknown
        unknownEventId := eventId
        pendingGeneration := st.pendingGeneration + 1 }
  | completed {st : OperationState} (eventId : Id) (before : st.state ≠ stateComplete) :
      Move st { st with
        state := stateComplete
        unknownEventId := eventId
        pendingGeneration := st.pendingGeneration + 1 }

def Ledger.Carried (l l' : Ledger) : Prop :=
  ∀ id st, l.operations id = some st →
    ∃ st', l'.operations id = some st' ∧ Relation.ReflTransGen OperationState.Move st st'

theorem Ledger.Carried.refl (l : Ledger) : l.Carried l := fun _ st hst => ⟨st, hst, .refl⟩

theorem Ledger.Carried.trans {l l' l'' : Ledger} (h : l.Carried l') (h' : l'.Carried l'') :
    l.Carried l'' := by
  intro id st hst
  obtain ⟨st', hst', hmoved⟩ := h id st hst
  obtain ⟨st'', hst'', hmoved'⟩ := h' id st' hst'
  exact ⟨st'', hst'', hmoved.trans hmoved'⟩

theorem carried_update {l l' : Ledger} {id : OperationId} {old new : OperationState}
    (hold : l.operations id = some old) (hmove : OperationState.Move old new)
    (hnew : l'.operations = Function.update l.operations id (some new)) : l.Carried l' := by
  intro other st hst
  rw [hnew]
  by_cases hother : other = id
  · subst hother
    obtain rfl := Option.some.inj (hold.symm.trans hst)
    exact ⟨new, Function.update_self .., .single hmove⟩
  · exact ⟨st, (Function.update_of_ne hother ..).trans hst, .refl⟩

theorem Ledger.Step.carried {epoch : UInt64} {e : LedgerEvent} {journalId : Id} {l l' : Ledger}
    (h : Step sha256 journalId epoch e l l') : l.Carried l' := by
  cases h with
  | received stage digest resourceGeneration action kind new fresh valid =>
    intro other st hst
    refine ⟨st, (Function.update_of_ne ?_ ..).trans hst, .refl⟩
    rintro rfl
    cases new.symm.trans hst
  | decided stage pending readable operation before binding decision hdecision fresh valid =>
    exact carried_update operation (.allowed _ _ before) rfl
  | denied stage answer deniedStage operation before =>
    exact carried_update operation (.completed _ (before.trans_ne (by decide))) rfl
  | outcome stage known operation before =>
    exact carried_update operation (.completed _ (before.trans_ne (by decide))) rfl
  | unknown stage unknown operation before => exact carried_update operation (.unknown _ before) rfl
  | recovered stage operation before =>
    exact carried_update operation (.completed _ (before.trans_ne (by decide))) rfl
  | published => exact Ledger.Carried.refl l

theorem Operation.Moves.carried {op : Operation} {journalId : Id} {l l' : Ledger}
    (h : op.Moves sha256 journalId l l') : l.Carried l' := by
  cases h with
  | idle => exact Ledger.Carried.refl l
  | commit mem step => exact step.carried
  | advance call next_eq => exact Ledger.Carried.refl l

/-- **What is recorded stays.** Whatever calls, faults and openings come after, the records that
are stored stay as they are under those that are added, and every operation that is stored has
only been moved on. -/
theorem session_keeps (sha256 : Hasher) (config : JournalConfig)
    (faults : Finset FaultPoint) (steps more : List SessionStep) :
    (∃ before added,
      records (runSession sha256 steps (.create config faults)) = .ok before ∧
      records (runSession sha256 (steps ++ more) (.create config faults)) = .ok (before ++ added)) ∧
    ∀ id,
      (runSession sha256 steps (.create config faults)).store.operations.get id = none ∨
      ∃ st st', Relation.ReflTransGen OperationState.Move st st' ∧
        (runSession sha256 steps (.create config faults)).store.operations.get id
          = some st.encode ∧
        (runSession sha256 (steps ++ more) (.create config faults)).store.operations.get id
          = some st'.encode := by
  obtain ⟨l, h, -⟩ := runSession_refines (P := fun _ => True) steps (fun _ _ _ _ _ _ => trivial)
    (create_refines sha256 config faults) trivial
  have hstep : ∀ op m m', .call op ∈ more → op.Moves sha256 config.journalId m m' →
      l.entries <+: m.entries ∧ l.Carried m → l.entries <+: m'.entries ∧ l.Carried m' := by
    rintro op m m' - hmoves ⟨hentries, hcarried⟩
    exact ⟨hentries.trans hmoves.entries_prefix, hcarried.trans hmoves.carried⟩
  obtain ⟨l', h', ⟨added, hadded⟩, hcarried⟩ := runSession_refines
    (P := fun m => l.entries <+: m.entries ∧ l.Carried m) more hstep h
    ⟨List.prefix_rfl, .refl l⟩
  rw [runSession, runSession, List.foldl_append, ← runSession, ← runSession]
  refine ⟨⟨_, added.map (recordLayout config.journalId), h.records_eq, ?_⟩, fun id => ?_⟩
  · rw [h'.records_eq, ← hadded, List.map_append]
  · rw [h.represents.operations, h'.represents.operations]
    cases hop : l.operations id with
    | none => exact .inl rfl
    | some st =>
      obtain ⟨st', hst', hmoved⟩ := hcarried id st hop
      exact .inr ⟨st, st', hmoved, rfl, by rw [hst']; rfl⟩

end Ferrocrate.Witness
