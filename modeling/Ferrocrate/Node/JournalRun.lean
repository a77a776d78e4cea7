import Ferrocrate.Lib.Program
import Ferrocrate.Node.Journal

/-! Runs of the lifecycle journal. The next number is taken from the last line, so the journal
stays readable as long as no intent is recorded right after the outcome of an older one. -/
namespace Ferrocrate.Node
open Lib
open LifecycleJournal

inductive JournalCall where
  | intent (fails : Bool) (action : MutationAction) (instanceId service : String)
      (targetRevision : UInt64) (recordedUnix : Int64)
  | outcome (fails : Bool) (seq : UInt64) (ok : Bool) (detail : String) (recordedUnix : Int64)

def JournalCall.fails : JournalCall → Bool
  | intent fails _ _ _ _ _ => fails
  | outcome fails _ _ _ _ => fails

structure JournalSession where
  file : LifecycleJournal
  issued : List IntentRecord
  closed : List UInt64

namespace JournalSession

def new : JournalSession := ⟨none, [], []⟩

def lines (s : JournalSession) : List JournalEntry := s.file.getD []

def entry (s : JournalSession) : JournalCall → JournalEntry
  | .intent _ action instanceId service targetRevision recordedUnix =>
    .intent ⟨nextSeq s.lines, action, instanceId, service, targetRevision, recordedUnix⟩
  | .outcome _ seq ok detail recordedUnix => .outcome ⟨seq, ok, detail, recordedUnix⟩

section LineBytes
variable (lineBytes : JournalEntry → Nat)

def step (s : JournalSession) : JournalCall → JournalSession
  | .intent fails action instanceId service targetRevision recordedUnix =>
    match appendIntent lineBytes s.file fails action instanceId service targetRevision
        recordedUnix with
    | .ok (seq, file) => { s with
        file := file
        issued := s.issued ++ [⟨seq, action, instanceId, service, targetRevision, recordedUnix⟩] }
    | .error _ => s
  | .outcome fails seq ok detail recordedUnix =>
    match appendOutcome lineBytes s.file fails seq ok detail recordedUnix with
    | .ok file => { s with file := file, closed := s.closed ++ [seq] }
    | .error _ => s

/-- A call that names an instance and a service, or an intent that was returned, while there is
room for its line. -/
structure Allowed (s : JournalSession) (c : JournalCall) : Prop where
  named : ∀ {fails action instanceId service targetRevision recordedUnix},
    c = .intent fails action instanceId service targetRevision recordedUnix →
      isBlank instanceId = false ∧ isBlank service = false
  returned : ∀ {fails seq ok detail recordedUnix},
    c = .outcome fails seq ok detail recordedUnix → seq ∈ s.issued.map (·.seq)
  room : bytes lineBytes s.lines + lineBytes (s.entry c) ≤ maxJournalBytes ∧
    s.lines.length + 1 ≤ maxJournalEntries

/-- The journal loads, the numbers increase, and the open intents are those with no outcome. -/
def Consistent (s : JournalSession) : Prop :=
  ∃ entries, load lineBytes s.file = .ok entries ∧ (s.issued.map (·.seq)).Pairwise (· < ·) ∧
    ∀ record, record ∈ ambiguous entries ↔ record ∈ s.issued ∧ record.seq ∉ s.closed

end LineBytes

def InOrder (s : JournalSession) : JournalCall → Prop
  | .intent fails _ _ _ _ _ =>
    fails = true ∨ ∀ e ∈ s.lines.getLast?, ∀ record ∈ s.issued, record.seq ≤ e.seq
  | .outcome _ _ _ _ _ => True

instance (s : JournalSession) : (c : JournalCall) → Decidable (s.InOrder c)
  | .intent fails _ _ _ _ _ => inferInstanceAs (Decidable (fails = true ∨
      ∀ e ∈ s.lines.getLast?, ∀ record ∈ s.issued, record.seq ≤ e.seq))
  | .outcome _ _ _ _ _ => .isTrue trivial

structure Linked (s : JournalSession) : Prop where
  issued : s.issued = intents s.lines
  closed : s.closed = LifecycleJournal.closed s.lines

variable {lineBytes : JournalEntry → Nat} {s : JournalSession} {c : JournalCall}

theorem append_eq_ok {file file' : LifecycleJournal} {fails : Bool} {e : JournalEntry}
    (h : append lineBytes file fails e = .ok file') :
    fails = false ∧ file' = some (file.getD [] ++ [e]) := by
  unfold append at h
  obtain ⟨hfails, h⟩ := Except.ite_error_eq_ok.mp h
  refine ⟨by simpa using hfails, ?_⟩
  cases file with
  | none => exact (Except.ok.inj h).symm
  | some entries => exact (Except.ok.inj (Except.ite_error_eq_ok.mp h).2).symm

variable {entries : List JournalEntry}

theorem load_eq_ok {file : LifecycleJournal}
    (h : load lineBytes file = .ok entries) :
    entries = file.getD [] ∧ checkEntries 0 [] entries = .ok () := by
  cases file with
  | none =>
    cases h
    exact ⟨rfl, rfl⟩
  | some lines =>
    obtain ⟨-, h⟩ := Except.ite_error_eq_ok.mp h
    obtain ⟨⟨⟩, hcheck, h⟩ := Except.bind_eq_ok.mp h
    cases h
    exact ⟨rfl, hcheck⟩

theorem step_cases (lineBytes : JournalEntry → Nat) (s : JournalSession) (c : JournalCall) :
    s.step lineBytes c = s ∨ (c.fails = false ∧
      (s.step lineBytes c).file = some (s.lines ++ [s.entry c]) ∧
      (s.step lineBytes c).issued = s.issued ++ (s.entry c).intent?.toList ∧
      (s.step lineBytes c).closed = s.closed ++ (s.entry c).closes?.toList) := by
  cases c with
  | intent fails action instanceId service targetRevision recordedUnix =>
    simp only [step]
    cases h : appendIntent lineBytes s.file fails action instanceId service targetRevision
        recordedUnix with
    | error e => exact .inl rfl
    | ok r =>
      obtain ⟨entries, hload, h⟩ := Except.bind_eq_ok.mp h
      obtain ⟨file, happend, h⟩ := Except.bind_eq_ok.mp h
      cases h
      obtain ⟨rfl, -⟩ := load_eq_ok hload
      obtain ⟨hfails, hfile⟩ := append_eq_ok happend
      exact .inr ⟨hfails, hfile, rfl, (List.append_nil _).symm⟩
  | outcome fails seq ok detail recordedUnix =>
    simp only [step]
    cases h : appendOutcome lineBytes s.file fails seq ok detail recordedUnix with
    | error e => exact .inl rfl
    | ok file =>
      obtain ⟨hfails, hfile⟩ := append_eq_ok h
      exact .inr ⟨hfails, hfile, (List.append_nil _).symm, rfl⟩

theorem Linked.step (h : s.Linked) (c : JournalCall) : (s.step lineBytes c).Linked := by
  obtain heq | ⟨-, hfile, hissued, hclosed⟩ := step_cases lineBytes s c
  · rwa [heq]
  have hlines : (s.step lineBytes c).lines = s.lines ++ [s.entry c] := by rw [lines, hfile]; rfl
  constructor
  · rw [hissued, hlines, h.issued, intents, intents, List.filterMap_append]
    cases (s.entry c) <;> rfl
  · rw [hclosed, hlines, h.closed, LifecycleJournal.closed, LifecycleJournal.closed,
      List.filterMap_append]
    cases (s.entry c) <;> rfl

structure Readable (lineBytes : JournalEntry → Nat) (s : JournalSession) : Prop extends Linked s where
  check : checkEntries 0 [] s.lines = .ok ()
  increasing : (s.issued.map (·.seq)).Pairwise (· < ·)
  bounded : ∀ record ∈ s.issued, record.seq.toNat ≤ s.lines.length
  known : ∀ e ∈ s.lines, e.seq ∈ s.issued.map (·.seq)
  room : bytes lineBytes s.lines ≤ maxJournalBytes ∧ s.lines.length ≤ maxJournalEntries

theorem readable_new : new.Readable lineBytes where
  issued := rfl
  closed := rfl
  check := rfl
  increasing := .nil
  bounded := by simp [new]
  known := by simp [new, lines]
  room := by simp [new, lines, bytes]

theorem load_of_room (hcheck : checkEntries 0 [] s.lines = .ok ())
    (hroom : bytes lineBytes s.lines ≤ maxJournalBytes ∧ s.lines.length ≤ maxJournalEntries) :
    load lineBytes s.file = .ok s.lines := by
  unfold lines at *
  cases hfile : s.file with
  | none => rfl
  | some entries =>
    simp only [hfile, Option.getD_some] at hcheck hroom ⊢
    rw [load, if_neg (by omega), hcheck]
    rfl

theorem Readable.consistent (h : s.Readable lineBytes) : s.Consistent lineBytes := by
  refine ⟨s.lines, load_of_room h.check h.room, h.increasing, fun record => ?_⟩
  rw [mem_ambiguous, ← h.issued, ← h.closed]

theorem Readable.lt_nextSeq (h : s.Readable lineBytes)
    (hlast : ∀ e ∈ s.lines.getLast?, ∀ record ∈ s.issued, record.seq ≤ e.seq) :
    0 < nextSeq s.lines ∧ (nextSeq s.lines).toNat ≤ s.lines.length + 1 ∧
      ∀ record ∈ s.issued, record.seq < nextSeq s.lines := by
  cases hl : s.lines.getLast? with
  | none =>
    have hnil : s.lines = [] := List.getLast?_eq_none_iff.mp hl
    have hissued : s.issued = [] := by rw [h.issued, hnil]; rfl
    simp [hnil, hissued, nextSeq]
  | some e =>
    have hmem : e ∈ s.lines := List.mem_of_getLast? hl
    obtain ⟨r, hr, hseq⟩ := List.mem_map.mp (h.known e hmem)
    have hbound := h.bounded r hr
    have hroom : s.lines.length ≤ 65536 := h.room.2
    have hnext : (nextSeq s.lines).toNat = e.seq.toNat + 1 := by
      rw [nextSeq, hl, Option.map_some, Option.getD_some, UInt64.toNat_add, UInt64.toNat_one,
        ← hseq]
      omega
    rw [hseq] at hbound
    refine ⟨UInt64.lt_iff_toNat_lt.mpr (by rw [hnext]; simp), by omega, fun record hrecord => ?_⟩
    have hle := UInt64.le_iff_toNat_le.mp (hlast e hl record hrecord)
    exact UInt64.lt_iff_toNat_lt.mpr (by omega)

theorem Readable.check_intent (h : s.Readable lineBytes) {record : IntentRecord}
    (hid : isBlank record.instanceId = false) (hservice : isBlank record.service = false)
    (hpos : 0 < record.seq) (hnew : ∀ r ∈ s.issued, r.seq < record.seq) :
    checkEntries 0 [] (s.lines ++ [.intent record]) = .ok () := by
  have hlast : ¬ record.seq ≤ ((intents s.lines).map (·.seq)).getLastD 0 := by
    rw [List.getLastD_eq_getLast?, UInt64.not_le]
    cases hl : ((intents s.lines).map (·.seq)).getLast? with
    | none => exact hpos
    | some last =>
      obtain ⟨r, hr, rfl⟩ := List.mem_map.mp (List.mem_of_getLast? hl)
      exact hnew r (h.issued ▸ hr)
  have hmem : record.seq ∉ ((intents s.lines).map (·.seq)).reverse ++ [] := by
    rw [List.append_nil, List.mem_reverse, ← h.issued]
    intro hmem
    obtain ⟨r, hr, heq⟩ := List.mem_map.mp hmem
    exact absurd heq (UInt64.ne_of_lt (hnew r hr))
  rw [checkEntries_append, h.check]
  simp only [Except.bind, checkEntries, hid, hservice, Bool.false_eq_true, or_self, if_false, hlast,
    hmem]

theorem Readable.check_outcome (h : s.Readable lineBytes) {record : OutcomeRecord}
    (hknown : record.seq ∈ s.issued.map (·.seq)) :
    checkEntries 0 [] (s.lines ++ [.outcome record]) = .ok () := by
  have hmem : record.seq ∈ ((intents s.lines).map (·.seq)).reverse ++ [] := by
    rwa [List.append_nil, List.mem_reverse, ← h.issued]
  rw [checkEntries_append, h.check]
  simp only [Except.bind, checkEntries, hmem, not_true_eq_false, if_false]

theorem Readable.step (h : s.Readable lineBytes) (ha : s.Allowed lineBytes c) (ho : s.InOrder c) :
    (s.step lineBytes c).Readable lineBytes := by
  have hlinked : (s.step lineBytes c).Linked := h.toLinked.step c
  obtain heq | ⟨hfails, hfile, hissued, -⟩ := step_cases lineBytes s c
  · rwa [heq]
  have hlines : (s.step lineBytes c).lines = s.lines ++ [s.entry c] := by rw [lines, hfile]; rfl
  have hroom : bytes lineBytes (s.step lineBytes c).lines ≤ maxJournalBytes ∧
      (s.step lineBytes c).lines.length ≤ maxJournalEntries := by
    rw [hlines]
    simpa [bytes] using ha.room
  cases c with
  | outcome fails seq ok detail recordedUnix =>
    have hsame : (s.step lineBytes (.outcome fails seq ok detail recordedUnix)).issued = s.issued := by
      rw [hissued, entry, JournalEntry.intent?, Option.toList_none, List.append_nil]
    have hknown := ha.returned rfl
    refine ⟨hlinked, ?_, hsame ▸ h.increasing, fun r hr => ?_, fun e he => ?_, hroom⟩
    · rw [hlines]
      exact h.check_outcome hknown
    · have := h.bounded r (hsame ▸ hr)
      rw [hlines, List.length_append, List.length_singleton]
      omega
    · rw [hlines, List.mem_append, List.mem_singleton] at he
      rw [hsame]
      rcases he with he | rfl
      · exact h.known e he
      · exact hknown
  | intent fails action instanceId service targetRevision recordedUnix =>
    obtain ⟨hid, hservice⟩ := ha.named rfl
    have hlast := ho.resolve_left (by simpa [JournalCall.fails] using hfails)
    obtain ⟨hpos, hbound, hnew⟩ := h.lt_nextSeq hlast
    rw [entry, JournalEntry.intent?, Option.toList_some] at hissued
    refine ⟨hlinked, ?_, ?_, fun r hr => ?_, fun e he => ?_, hroom⟩
    · rw [hlines]
      exact h.check_intent hid hservice hpos hnew
    · rw [hissued, List.map_append, List.pairwise_append]
      refine ⟨h.increasing, List.pairwise_singleton _ _, fun a ha b hb => ?_⟩
      obtain ⟨r, hr, rfl⟩ := List.mem_map.mp ha
      rw [List.map_singleton, List.mem_singleton] at hb
      exact hb ▸ hnew r hr
    · rw [hissued, List.mem_append, List.mem_singleton] at hr
      rw [hlines, List.length_append, List.length_singleton]
      rcases hr with hr | rfl
      · have := h.bounded r hr
        omega
      · exact hbound
    · rw [hlines, List.mem_append, List.mem_singleton] at he
      rw [hissued, List.map_append, List.mem_append]
      rcases he with he | rfl
      · exact .inl (h.known e he)
      · exact .inr (by simp [entry, JournalEntry.seq])

theorem step_intent (hload : load lineBytes s.file = .ok entries)
    {action : MutationAction} {instanceId service : String} {targetRevision : UInt64}
    {recordedUnix : Int64}
    (ha : s.Allowed lineBytes (.intent false action instanceId service targetRevision recordedUnix)) :
    (s.step lineBytes (.intent false action instanceId service targetRevision recordedUnix)).issued
      = s.issued ++ [⟨nextSeq s.lines, action, instanceId, service, targetRevision,
        recordedUnix⟩] := by
  obtain ⟨rfl, -⟩ := load_eq_ok hload
  have hroom := ha.room.1
  have happend (e : JournalEntry) (he : bytes lineBytes s.lines + lineBytes e ≤ maxJournalBytes) :
      append lineBytes s.file false e = .ok (some (s.lines ++ [e])) := by
    unfold lines at *
    cases hfile : s.file with
    | none => rfl
    | some entries =>
      simp only [hfile, Option.getD_some] at he ⊢
      rw [append, if_neg (by simp)]
      simp only [if_neg (Nat.not_lt.mpr he)]
  have hcall := happend _ hroom
  simp only [entry] at hcall
  have hseq : nextSeq (s.file.getD []) = nextSeq s.lines := rfl
  simp only [step, appendIntent, hload, bind, Except.bind, hseq, hcall, pure, Except.pure]

theorem inOrder_of_consistent (ha : s.Allowed lineBytes c) (hs : s.Consistent lineBytes)
    (hnext : (s.step lineBytes c).Consistent lineBytes) : s.InOrder c := by
  cases c with
  | outcome fails seq ok detail recordedUnix => trivial
  | intent fails action instanceId service targetRevision recordedUnix =>
    cases fails with
    | true => exact .inl rfl
    | false =>
      refine .inr fun e he record hrecord => ?_
      by_contra hlt
      obtain ⟨entries, hload, -, -⟩ := hs
      obtain ⟨-, -, hincreasing, -⟩ := hnext
      rw [step_intent hload ha, List.map_append, List.pairwise_append] at hincreasing
      have hnew : record.seq < nextSeq s.lines :=
        hincreasing.2.2 _ (List.mem_map_of_mem hrecord) _ (by simp)
      have hseq : nextSeq s.lines = e.seq + 1 := by
        rw [nextSeq, Option.mem_def.mp he, Option.map_some, Option.getD_some]
      rw [hseq, UInt64.lt_iff_toNat_lt, UInt64.toNat_add, UInt64.toNat_one] at hnew
      rw [UInt64.not_le, UInt64.lt_iff_toNat_lt] at hlt
      have := record.seq.toNat_lt
      omega

/-- Over every run of calls that name their instances and their intents and leave room in the
file, the journal is consistent all along exactly when no intent is written right after the
outcome of an older one. -/
theorem run_consistent_iff (lineBytes : JournalEntry → Nat) (calls : List JournalCall)
    (hallowed : Runs.Along (step lineBytes) (Allowed lineBytes) new calls) :
    Runs.Throughout (step lineBytes) (Consistent lineBytes) new calls ↔
      Runs.Along (step lineBytes) InOrder new calls := by
  constructor
  · intro h
    exact h.along (fun s c ha hs hnext => inOrder_of_consistent ha hs hnext) hallowed
  · intro h
    have hstart : new.Readable lineBytes := readable_new
    have hreadable := (hallowed.and h).invariant (fun s c hc hs => Readable.step hs hc.1 hc.2)
      hstart
    exact hreadable.mono fun s hs => hs.consistent

def plainLineBytes : JournalEntry → Nat
  | .intent r => 103 + (Nat.toDigits 10 r.seq.toNat).length + (if r.action = .start then 5 else 4)
      + r.instanceId.utf8ByteSize + r.service.utf8ByteSize
      + (Nat.toDigits 10 r.targetRevision.toNat).length + r.recordedUnix.toInt.repr.utf8ByteSize
  | .outcome r => 61 + (Nat.toDigits 10 r.seq.toNat).length + (if r.ok then 4 else 5)
      + r.detail.utf8ByteSize + r.recordedUnix.toInt.repr.utf8ByteSize

def orderedCalls : List JournalCall :=
  [.intent false .start "web-r1-0" "web" 1 100, .outcome false 1 true "applied" 101,
    .intent false .stop "web-r1-0" "web" 1 102]

def crossedCalls : List JournalCall :=
  [.intent false .start "web-r1-0" "web" 1 100, .intent false .stop "web-r1-0" "web" 1 101,
    .outcome false 1 true "started" 102, .intent false .start "web-r1-0" "web" 1 103]

def allows (lineBytes : JournalEntry → Nat) (s : JournalSession) (c : JournalCall) : Bool :=
  (match c with
    | .intent _ _ instanceId service _ _ => !isBlank instanceId && !isBlank service
    | .outcome _ seq _ _ _ => decide (seq ∈ s.issued.map (·.seq)))
  && decide (bytes lineBytes s.lines + lineBytes (s.entry c) ≤ maxJournalBytes)
  && decide (s.lines.length + 1 ≤ maxJournalEntries)

theorem allowed_of_allows (h : s.allows lineBytes c = true) : s.Allowed lineBytes c := by
  simp only [allows, Bool.and_eq_true, decide_eq_true_eq] at h
  refine ⟨?_, ?_, h.1.2, h.2⟩
  · rintro fails action instanceId service targetRevision recordedUnix rfl
    simpa using h.1.1
  · rintro fails seq ok detail recordedUnix rfl
    simpa using h.1.1

theorem ordered_run_consistent :
    Runs.Along (step plainLineBytes) (Allowed plainLineBytes) new orderedCalls ∧
      Runs.Throughout (step plainLineBytes) (Consistent plainLineBytes) new orderedCalls := by
  have hallowed : Runs.Along (step plainLineBytes) (Allowed plainLineBytes) new orderedCalls := by
    refine ⟨allowed_of_allows ?_, allowed_of_allows ?_, allowed_of_allows ?_, trivial⟩ <;>
      decide +kernel
  refine ⟨hallowed, (run_consistent_iff plainLineBytes orderedCalls hallowed).mpr ?_⟩
  refine ⟨?_, ?_, ?_, trivial⟩ <;> decide +kernel

/-- The intent after the crossed outcome repeats a number, and the journal no longer loads. -/
theorem crossed_outcome_breaks_journal :
    Runs.Along (step plainLineBytes) (Allowed plainLineBytes) new crossedCalls ∧
      ¬ Consistent plainLineBytes (crossedCalls.foldl (step plainLineBytes) new) := by
  constructor
  · refine ⟨allowed_of_allows ?_, allowed_of_allows ?_, allowed_of_allows ?_,
      allowed_of_allows ?_, trivial⟩ <;> decide +kernel
  · rintro ⟨entries, hload, -⟩
    have hfails : load plainLineBytes (crossedCalls.foldl (step plainLineBytes) new).file
        = .error (.invalid "sequence numbers must increase") := by decide +kernel
    rw [hfails] at hload
    cases hload

end JournalSession
end Ferrocrate.Node
