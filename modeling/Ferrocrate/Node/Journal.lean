import Ferrocrate.Lib.Runs
import Ferrocrate.Lib.Text

/-! The lifecycle journal of a node (`node/journal.rs`): an intent before every effect and an
outcome after it, one line each. A line is modelled by the record it holds. -/
namespace Ferrocrate.Node
open Lib

inductive MutationAction where
  | start | stop
deriving DecidableEq

structure IntentRecord where
  seq : UInt64
  action : MutationAction
  instanceId : String
  service : String
  targetRevision : UInt64
  recordedUnix : Int64
deriving DecidableEq

structure OutcomeRecord where
  seq : UInt64
  ok : Bool
  detail : String
  recordedUnix : Int64
deriving DecidableEq

inductive JournalEntry where
  | intent (record : IntentRecord)
  | outcome (record : OutcomeRecord)
deriving DecidableEq

def JournalEntry.seq : JournalEntry → UInt64
  | intent record => record.seq
  | outcome record => record.seq

def JournalEntry.intent? : JournalEntry → Option IntentRecord
  | intent record => some record
  | outcome _ => none

def JournalEntry.closes? : JournalEntry → Option UInt64
  | intent _ => none
  | outcome record => some record.seq

inductive JournalError where
  | io
  | invalid (reason : String)
  | oversized
deriving DecidableEq

def maxJournalBytes : Nat := 4 * 1024 * 1024
def maxJournalEntries : Nat := 65536

abbrev LifecycleJournal := Option (List JournalEntry)

namespace LifecycleJournal

def checkEntries : UInt64 → List UInt64 → List JournalEntry → Except JournalError Unit
  | _, _, [] => .ok ()
  | lastIntentSeq, intentSeqs, .intent record :: rest =>
    if isBlank record.instanceId ∨ isBlank record.service then
      .error (.invalid "empty identity in intent")
    else if record.seq ≤ lastIntentSeq ∨ record.seq ∈ intentSeqs then
      .error (.invalid "sequence numbers must increase")
    else checkEntries record.seq (record.seq :: intentSeqs) rest
  | lastIntentSeq, intentSeqs, .outcome record :: rest =>
    if record.seq ∉ intentSeqs then
      .error (.invalid ("outcome " ++ toString record.seq ++ " has no preceding intent"))
    else checkEntries lastIntentSeq intentSeqs rest

def ambiguous (entries : List JournalEntry) : List IntentRecord :=
  let closed := entries.filterMap (·.closes?)
  (entries.filterMap (·.intent?)).filter fun record => record.seq ∉ closed

def nextSeq (entries : List JournalEntry) : UInt64 :=
  (entries.getLast?.map JournalEntry.seq).getD 0 + 1

section LineBytes
variable (lineBytes : JournalEntry → Nat)

def bytes (entries : List JournalEntry) : Nat := (entries.map lineBytes).sum

def load (file : LifecycleJournal) : Except JournalError (List JournalEntry) :=
  match file with
  | none => .ok []
  | some entries =>
    if bytes lineBytes entries > maxJournalBytes ∨ entries.length > maxJournalEntries then
      .error .oversized
    else do
      checkEntries 0 [] entries
      return entries

def append (file : LifecycleJournal) (fails : Bool) (entry : JournalEntry) :
    Except JournalError LifecycleJournal :=
  if fails then .error .io
  else match file with
    | none => .ok (some [entry])
    | some entries =>
      if bytes lineBytes entries + lineBytes entry > maxJournalBytes then .error .oversized
      else .ok (some (entries ++ [entry]))

def appendIntent (file : LifecycleJournal) (fails : Bool) (action : MutationAction)
    (instanceId service : String) (targetRevision : UInt64) (recordedUnix : Int64) :
    Except JournalError (UInt64 × LifecycleJournal) := do
  let entries ← load lineBytes file
  let seq := nextSeq entries
  let file ← append lineBytes file fails
    (.intent ⟨seq, action, instanceId, service, targetRevision, recordedUnix⟩)
  return (seq, file)

def appendOutcome (file : LifecycleJournal) (fails : Bool) (seq : UInt64) (ok : Bool)
    (detail : String) (recordedUnix : Int64) : Except JournalError LifecycleJournal :=
  append lineBytes file fails (.outcome ⟨seq, ok, detail, recordedUnix⟩)

end LineBytes

/-! What the checks of `load` come to. -/

def intents (entries : List JournalEntry) : List IntentRecord := entries.filterMap (·.intent?)

def closed (entries : List JournalEntry) : List UInt64 := entries.filterMap (·.closes?)

@[simp] theorem intents_cons_intent (record : IntentRecord) (entries : List JournalEntry) :
    intents (.intent record :: entries) = record :: intents entries := rfl

@[simp] theorem intents_cons_outcome (record : OutcomeRecord) (entries : List JournalEntry) :
    intents (.outcome record :: entries) = intents entries := rfl

theorem checkEntries_append (last : UInt64) (seqs : List UInt64) (entries : List JournalEntry)
    (entry : JournalEntry) : checkEntries last seqs (entries ++ [entry])
      = (checkEntries last seqs entries).bind fun _ =>
        checkEntries (((intents entries).map (·.seq)).getLastD last)
          (((intents entries).map (·.seq)).reverse ++ seqs) [entry] := by
  induction entries generalizing last seqs with
  | nil => rfl
  | cons e entries ih =>
    cases e with
    | intent record =>
      simp only [List.cons_append, checkEntries]
      split
      · rfl
      split
      · rfl
      rw [ih, intents_cons_intent, List.map_cons, List.getLastD_cons, List.reverse_cons,
        List.append_assoc, List.singleton_append]
    | outcome record =>
      simp only [List.cons_append, checkEntries]
      split
      · rfl
      rw [ih, intents_cons_outcome]

theorem mem_ambiguous {entries : List JournalEntry} {record : IntentRecord} :
    record ∈ ambiguous entries ↔ record ∈ intents entries ∧ record.seq ∉ closed entries := by
  simp [ambiguous, intents, closed]

end LifecycleJournal
end Ferrocrate.Node
