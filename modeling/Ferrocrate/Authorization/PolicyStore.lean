import Ferrocrate.Authorization.Policy
import Ferrocrate.Lib.Framing
import Ferrocrate.Lib.Runs
import Ferrocrate.Lib.Sha256

/-! The policy store (`authorization/policy.rs`): callers take snapshots while the stable file is
replaced and candidates are installed, and when a snapshot is the policy in the file. -/
namespace Ferrocrate.Authorization
open Lib
open Witness (Digest)

structure RwLock where
  readers : Nat
  writer : Option Nat

namespace RwLock

def free : RwLock := ⟨0, none⟩

def read (lock : RwLock) : Option RwLock :=
  if lock.writer = none then some { lock with readers := lock.readers + 1 } else none

def dropRead (lock : RwLock) : RwLock := { lock with readers := lock.readers - 1 }

def write (lock : RwLock) (thread : Nat) : Option RwLock :=
  if lock.writer = none ∧ lock.readers = 0 then some { lock with writer := some thread } else none

def dropWrite (lock : RwLock) : RwLock := { lock with writer := none }

variable {lock lock' : RwLock}

theorem writer_of_read (h : lock.read = some lock') : lock'.writer = lock.writer := by
  rw [read] at h
  split at h
  · rw [← Option.some.inj h]
  · cases h

theorem writer_of_write {thread : Nat} (h : lock.write thread = some lock') :
    lock.writer = none ∧ lock'.writer = some thread := by
  rw [write] at h
  split at h
  next hfree =>
    rw [← Option.some.inj h]
    exact ⟨hfree.1, rfl⟩
  · cases h

end RwLock

structure PolicyStore where
  active : PolicySnapshot
  activeLock : RwLock
  sourceDigest : Option Digest
  sourceDigestLock : RwLock

def PolicyStore.load (r : PolicyReader) (file : PolicyFile) : Except PolicyError PolicyStore := do
  let candidate ← r.loadCandidate file
  return ⟨candidate.snapshot, .free, some candidate.snapshot.digest, .free⟩

structure PolicyHost (r : PolicyReader) where
  file : StableFile r
  replacements : Nat
  store : PolicyStore

variable {r : PolicyReader}

namespace PolicyHost
variable (w : PolicyHost r)

def current : PolicySnapshot := w.file.candidate.snapshot

def replace (file : StableFile r) : PolicyHost r :=
  { w with file := file, replacements := w.replacements + 1 }

def lockActive (lock : RwLock) : PolicyHost r :=
  { w with store := { w.store with activeLock := lock } }

def lockSourceDigest (lock : RwLock) : PolicyHost r :=
  { w with store := { w.store with sourceDigestLock := lock } }

def setActive (snapshot : PolicySnapshot) : PolicyHost r :=
  { w with store := { w.store with active := snapshot } }

def setSourceDigest (digest : Digest) : PolicyHost r :=
  { w with store := { w.store with sourceDigest := some digest } }

end PolicyHost

inductive PolicyCall (r : PolicyReader) where
  | loadCandidate
  | lockObserved (candidate : PolicyCandidate)
  | compareObserved (candidate : PolicyCandidate)
  | lockCurrent (candidate : PolicyCandidate)
  | compareCurrent (candidate : PolicyCandidate)
  | lockActive (candidate : PolicyCandidate)
  | assignActive (candidate : PolicyCandidate)
  | lockSourceDigest
  | assignSourceDigest
  | dropSourceDigest
  | dropActive
  | lockSnapshot
  | cloneSnapshot
  | returned (snapshot : PolicySnapshot)
  | replaceFile (file : StableFile r) (rollbackAuthorized : Bool)
  | lockInstall (candidate : PolicyCandidate) (rollbackAuthorized : Bool)
  | checkInstall (candidate : PolicyCandidate) (rollbackAuthorized : Bool)
  | assignInstall (candidate : PolicyCandidate)
  | cloneInstalled
  | installed (result : Except PolicyError PolicySnapshot)

namespace PolicyCall

def advance (thread : Nat) (w : PolicyHost r) : PolicyCall r → PolicyCall r × PolicyHost r
  | loadCandidate =>
    match r.loadCandidate w.file.file with
    | .ok candidate => (lockObserved candidate, w)
    | .error _ => (lockSnapshot, w)
  | lockObserved candidate =>
    match w.store.sourceDigestLock.read with
    | some lock => (compareObserved candidate, w.lockSourceDigest lock)
    | none => (lockObserved candidate, w)
  | compareObserved candidate =>
    (if w.store.sourceDigest = some candidate.snapshot.digest then lockSnapshot
      else lockCurrent candidate, w.lockSourceDigest w.store.sourceDigestLock.dropRead)
  | lockCurrent candidate =>
    match w.store.activeLock.read with
    | some lock => (compareCurrent candidate, w.lockActive lock)
    | none => (lockCurrent candidate, w)
  | compareCurrent candidate =>
    (if candidate.snapshot.digest = w.store.active.digest then lockSnapshot
      else lockActive candidate, w.lockActive w.store.activeLock.dropRead)
  | lockActive candidate =>
    match w.store.activeLock.write thread with
    | some lock => (assignActive candidate, w.lockActive lock)
    | none => (lockActive candidate, w)
  | assignActive candidate => (lockSourceDigest, w.setActive candidate.snapshot)
  | lockSourceDigest =>
    match w.store.sourceDigestLock.write thread with
    | some lock => (assignSourceDigest, w.lockSourceDigest lock)
    | none => (lockSourceDigest, w)
  | assignSourceDigest => (dropSourceDigest, w.setSourceDigest w.store.active.digest)
  | dropSourceDigest => (dropActive, w.lockSourceDigest w.store.sourceDigestLock.dropWrite)
  | dropActive => (lockSnapshot, w.lockActive w.store.activeLock.dropWrite)
  | lockSnapshot =>
    match w.store.activeLock.read with
    | some lock => (cloneSnapshot, w.lockActive lock)
    | none => (lockSnapshot, w)
  | cloneSnapshot => (returned w.store.active, w.lockActive w.store.activeLock.dropRead)
  | returned snapshot => (returned snapshot, w)
  | replaceFile file rollbackAuthorized =>
    (lockInstall file.candidate rollbackAuthorized, w.replace file)
  | lockInstall candidate rollbackAuthorized =>
    match w.store.activeLock.write thread with
    | some lock => (checkInstall candidate rollbackAuthorized, w.lockActive lock)
    | none => (lockInstall candidate rollbackAuthorized, w)
  | checkInstall candidate rollbackAuthorized =>
    if candidate.snapshot.generation < w.store.active.generation ∧ rollbackAuthorized = false then
      (installed (.error (.rollback w.store.active.generation candidate.snapshot.generation)),
        w.lockActive w.store.activeLock.dropWrite)
    else (assignInstall candidate, w)
  | assignInstall candidate => (cloneInstalled, w.setActive candidate.snapshot)
  | cloneInstalled =>
    (installed (.ok w.store.active), w.lockActive w.store.activeLock.dropWrite)
  | installed result => (installed result, w)

def assigns : PolicyCall r → Option PolicyCandidate
  | assignActive candidate | assignInstall candidate => some candidate
  | _ => none

def HoldsActive : PolicyCall r → Prop
  | assignActive _ | lockSourceDigest | assignSourceDigest | dropSourceDigest | dropActive
  | checkInstall _ _ | assignInstall _ | cloneInstalled => True
  | _ => False

def Settled : PolicyCall r → Prop
  | lockSnapshot | cloneSnapshot => True
  | _ => False

instance : DecidablePred (Settled (r := r)) := fun call => by
  cases call <;> first | exact .isTrue trivial | exact .isFalse id

def candidate? : PolicyCall r → Option PolicyCandidate
  | lockObserved candidate | compareObserved candidate | lockCurrent candidate
  | compareCurrent candidate | lockActive candidate | assignActive candidate
  | lockInstall candidate _ | checkInstall candidate _ | assignInstall candidate => some candidate
  | replaceFile file _ => some file.candidate
  | _ => none

def returned? : PolicyCall r → Option PolicySnapshot
  | returned snapshot => some snapshot
  | _ => none

def Current (w : PolicyHost r) : PolicyCall r → Prop
  | lockObserved candidate | compareObserved candidate | lockCurrent candidate
  | compareCurrent candidate | lockActive candidate | assignActive candidate =>
    candidate = w.file.candidate
  | lockSourceDigest | assignSourceDigest | dropSourceDigest | dropActive | lockSnapshot
  | cloneSnapshot => w.store.active = w.current
  | returned snapshot => snapshot = w.current
  | _ => True

inductive Change (thread : Nat) (call : PolicyCall r) (w w' : PolicyHost r) : Prop where
  | kept (file : w'.file = w.file) (replacements : w'.replacements = w.replacements)
    (active : w'.store.active = w.store.active)
    (writer : w'.store.activeLock.writer = w.store.activeLock.writer ∨
      w.store.activeLock.writer = none ∨ call.HoldsActive)
  | assigned (candidate : PolicyCandidate) (call : call.assigns = some candidate)
    (file : w'.file = w.file) (replacements : w'.replacements = w.replacements)
    (active : w'.store.active = candidate.snapshot)
    (writer : w'.store.activeLock.writer = w.store.activeLock.writer)
  | replaced (file : StableFile r) (call : call.candidate? = some file.candidate)
    (host : w' = w.replace file)

variable {thread : Nat} {call : PolicyCall r} {w w' : PolicyHost r}

theorem advance_change (thread : Nat) (call : PolicyCall r) (w : PolicyHost r) :
    Change thread call w (call.advance thread w).2 := by
  cases call with
  | assignActive candidate => exact .assigned candidate rfl rfl rfl rfl rfl
  | assignInstall candidate => exact .assigned candidate rfl rfl rfl rfl rfl
  | replaceFile file rollbackAuthorized => exact .replaced file rfl rfl
  | dropActive => exact .kept rfl rfl rfl (.inr (.inr trivial))
  | cloneInstalled => exact .kept rfl rfl rfl (.inr (.inr trivial))
  | checkInstall candidate rollbackAuthorized =>
    rw [advance]
    split
    · exact .kept rfl rfl rfl (.inr (.inr trivial))
    · exact .kept rfl rfl rfl (.inl rfl)
  | lockActive candidate =>
    rw [advance]
    split
    next lock hlock => exact .kept rfl rfl rfl (.inr (.inl (RwLock.writer_of_write hlock).1))
    · exact .kept rfl rfl rfl (.inl rfl)
  | lockInstall candidate rollbackAuthorized =>
    rw [advance]
    split
    next lock hlock => exact .kept rfl rfl rfl (.inr (.inl (RwLock.writer_of_write hlock).1))
    · exact .kept rfl rfl rfl (.inl rfl)
  | lockCurrent candidate =>
    rw [advance]
    split
    next lock hlock => exact .kept rfl rfl rfl (.inl (RwLock.writer_of_read hlock))
    · exact .kept rfl rfl rfl (.inl rfl)
  | lockSnapshot =>
    rw [advance]
    split
    next lock hlock => exact .kept rfl rfl rfl (.inl (RwLock.writer_of_read hlock))
    · exact .kept rfl rfl rfl (.inl rfl)
  | loadCandidate =>
    rw [advance]
    split <;> exact .kept rfl rfl rfl (.inl rfl)
  | lockObserved candidate =>
    rw [advance]
    split <;> exact .kept rfl rfl rfl (.inl rfl)
  | lockSourceDigest =>
    rw [advance]
    split <;> exact .kept rfl rfl rfl (.inl rfl)
  | _ => exact .kept rfl rfl rfl (.inl rfl)

end PolicyCall

/-! Any number of callers of one store, and whoever else replaces the file. -/

structure PolicyThread (r : PolicyReader) where
  started : Nat
  call : PolicyCall r

structure PolicyCalls (r : PolicyReader) where
  host : PolicyHost r
  threads : List (PolicyThread r)

inductive PolicyTurn (r : PolicyReader) where
  | replace (file : StableFile r)
  | snapshot
  | install (file : StableFile r) (rollbackAuthorized : Bool)
  | step (thread : Nat)

def PolicyTurn.sources : PolicyTurn r → List Bytes
  | replace file | install file _ => [file.candidate.source]
  | snapshot | step _ => []

namespace PolicyCalls

def load (file : StableFile r) : PolicyCalls r where
  host := ⟨file, 0, file.candidate.snapshot, .free, some file.candidate.snapshot.digest, .free⟩
  threads := []

def next (c : PolicyCalls r) : PolicyTurn r → PolicyCalls r
  | .replace file => { c with host := c.host.replace file }
  | .snapshot => { c with threads := c.threads ++ [⟨c.host.replacements, .loadCandidate⟩] }
  | .install file rollbackAuthorized =>
    { c with
      threads := c.threads ++ [⟨c.host.replacements, .replaceFile file rollbackAuthorized⟩] }
  | .step i =>
    match c.threads[i]? with
    | none => c
    | some thread =>
      ⟨(thread.call.advance i c.host).2,
        c.threads.set i { thread with call := (thread.call.advance i c.host).1 }⟩

def Fresh (c : PolicyCalls r) : Prop :=
  ∀ thread ∈ c.threads, thread.started = c.host.replacements →
    ∀ snapshot ∈ thread.call.returned?, snapshot = c.host.current

/-- A call that has run since the file was last replaced and finds the remembered digest to be
the file's finds the file's policy active. -/
def Remembered (c : PolicyCalls r) (thread : PolicyThread r) : Prop :=
  match thread.call with
  | .compareObserved _ => thread.started = c.host.replacements →
    c.host.store.sourceDigest = some c.host.current.digest → c.host.store.active = c.host.current
  | _ => True

/-- No call assigns another policy than the file's while a call that has run since the file was
last replaced is about to read. -/
def Timely (c : PolicyCalls r) (thread : PolicyThread r) : Prop :=
  ∀ candidate ∈ thread.call.assigns, candidate.snapshot ≠ c.host.current →
    ∀ other ∈ c.threads, other.started = c.host.replacements → ¬other.call.Settled

def Undisturbed (c : PolicyCalls r) : PolicyTurn r → Prop
  | .step i => ∀ thread ∈ c.threads[i]?, c.Remembered thread ∧ c.Timely thread
  | _ => True

instance (c : PolicyCalls r) : Decidable c.Fresh := by
  unfold Fresh
  infer_instance

instance (c : PolicyCalls r) (thread : PolicyThread r) : Decidable (c.Remembered thread) := by
  unfold Remembered
  split <;> infer_instance

instance (c : PolicyCalls r) (thread : PolicyThread r) : Decidable (c.Timely thread) := by
  unfold Timely
  infer_instance

instance (c : PolicyCalls r) (turn : PolicyTurn r) : Decidable (c.Undisturbed turn) := by
  unfold Undisturbed
  split <;> infer_instance

section Invariant
variable (placed : Set Bytes)

def Known (candidate : PolicyCandidate) : Prop := r.ReadFrom candidate ∧ candidate.source ∈ placed

structure Keeps (w : PolicyHost r) (i : Nat) (thread : PolicyThread r) : Prop where
  known : ∀ candidate ∈ thread.call.candidate?, Known (r := r) placed candidate
  holds : thread.call.HoldsActive → w.store.activeLock.writer = some i
  started : thread.started ≤ w.replacements
  current : thread.started = w.replacements → thread.call.Current w

structure Invariant (c : PolicyCalls r) : Prop where
  file : c.host.file.candidate.source ∈ placed
  active : ∃ candidate, Known (r := r) placed candidate ∧ candidate.snapshot = c.host.store.active
  threads : ∀ i thread, c.threads[i]? = some thread → Keeps placed c.host i thread

variable {placed} {c : PolicyCalls r} {w w' : PolicyHost r} {i j : Nat}
  {thread other : PolicyThread r}

theorem StableFile.known {file : StableFile r} (h : file.candidate.source ∈ placed) :
    Known (r := r) placed file.candidate :=
  ⟨PolicyReader.readFrom_of_loadCandidate file.loads, h⟩

theorem Keeps.replace (h : Keeps placed w i thread) (file : StableFile r) :
    Keeps placed (w.replace file) i thread where
  known := h.known
  holds := h.holds
  started := Nat.le_succ_of_le h.started
  current := by
    intro hstarted
    have hle : thread.started ≤ w.replacements := h.started
    have heq : thread.started = w.replacements + 1 := hstarted
    omega

theorem current_congr {call : PolicyCall r} (h : call.Current w) (hfile : w'.file = w.file)
    (hactive : w'.store.active = w.store.active) : call.Current w' := by
  have hcurrent : w'.current = w.current := by
    rw [PolicyHost.current, hfile, PolicyHost.current]
  cases call <;> simp only [PolicyCall.Current, hfile, hactive, hcurrent] at h ⊢ <;> exact h

theorem Keeps.of_ne (hother : Keeps placed w j other) (hthread : Keeps placed w i thread)
    (hne : j ≠ i) (hchange : PolicyCall.Change i thread.call w w')
    (htimely : ∀ candidate ∈ thread.call.assigns, candidate.snapshot ≠ w.current →
      other.started = w.replacements → ¬other.call.Settled) : Keeps placed w' j other := by
  have hapart : other.call.HoldsActive → thread.call.HoldsActive → False := by
    intro hj hi
    exact hne (Option.some.inj ((hother.holds hj).symm.trans (hthread.holds hi)))
  cases hchange with
  | replaced file hcall hhost =>
    rw [hhost]
    exact hother.replace file
  | kept hfile hreplacements hactive hwriter =>
    refine ⟨hother.known, fun hholds => ?_, hreplacements ▸ hother.started, fun hstarted => ?_⟩
    · obtain hsame | hnone | hi := hwriter
      · exact hsame.trans (hother.holds hholds)
      · rw [hother.holds hholds] at hnone
        cases hnone
      · exact (hapart hholds hi).elim
    · exact current_congr (hother.current (hstarted.trans hreplacements)) hfile hactive
  | assigned candidate hcall hfile hreplacements hactive hwriter =>
    refine ⟨hother.known, fun hholds => hwriter.trans (hother.holds hholds),
      hreplacements ▸ hother.started, fun hstarted => ?_⟩
    have hfresh : other.started = w.replacements := hstarted.trans hreplacements
    have hcurrent := hother.current hfresh
    have hi : thread.call.HoldsActive := by
      cases hc : thread.call <;> rw [hc] at hcall <;> trivial
    have hsame : w'.current = w.current := by
      rw [PolicyHost.current, hfile, PolicyHost.current]
    by_cases heq : candidate.snapshot = w.current
    · cases hc : other.call <;>
        simp only [hc, PolicyCall.Current, hfile, hactive, hsame, heq] at hcurrent ⊢ <;>
        exact hcurrent
    · have hnot := htimely candidate hcall heq hfresh
      cases hc : other.call <;> rw [hc] at hcurrent hnot hapart <;>
        first
        | exact (hapart trivial hi).elim
        | exact (hnot trivial).elim
        | (simp only [PolicyCall.Current, hfile, hsame] at hcurrent ⊢; exact hcurrent)
        | trivial

theorem Keeps.advance (h : Keeps placed w i thread) (hinj : Set.InjOn r.sha256 placed)
    (hfile : w.file.candidate.source ∈ placed)
    (hactive : ∃ candidate, Known (r := r) placed candidate ∧ candidate.snapshot = w.store.active)
    (hremembered : Remembered ⟨w, []⟩ thread) :
    Keeps placed (thread.call.advance i w).2 i
      { thread with call := (thread.call.advance i w).1 } := by
  obtain ⟨started, call⟩ := thread
  obtain ⟨hknown, hholds, hstarted, hcurrent⟩ := h
  cases call with
  | loadCandidate =>
    simp only [PolicyCall.advance, w.file.loads]
    exact ⟨fun candidate hc => Option.some.inj hc ▸ StableFile.known hfile, False.elim, hstarted,
      fun _ => rfl⟩
  | lockObserved candidate =>
    rw [PolicyCall.advance]
    split
    · exact ⟨hknown, False.elim, hstarted, hcurrent⟩
    · exact ⟨hknown, hholds, hstarted, hcurrent⟩
  | compareObserved candidate =>
    rw [PolicyCall.advance]
    split
    next hdigest =>
      refine ⟨fun _ hc => (nomatch hc), False.elim, hstarted, fun hfresh => ?_⟩
      obtain rfl : candidate = w.file.candidate := hcurrent hfresh
      exact hremembered hfresh hdigest
    · exact ⟨hknown, False.elim, hstarted, hcurrent⟩
  | lockCurrent candidate =>
    rw [PolicyCall.advance]
    split
    · exact ⟨hknown, False.elim, hstarted, hcurrent⟩
    · exact ⟨hknown, hholds, hstarted, hcurrent⟩
  | compareCurrent candidate =>
    rw [PolicyCall.advance]
    split
    next hdigest =>
      refine ⟨fun _ hc => (nomatch hc), False.elim, hstarted, fun hfresh => ?_⟩
      obtain ⟨active, ⟨hread, hplaced⟩, hsnapshot⟩ := hactive
      obtain ⟨hread', hplaced'⟩ := hknown candidate rfl
      have hsame : candidate = w.file.candidate := hcurrent hfresh
      have heq : candidate = active :=
        hread'.eq_of_digest_eq hinj hread hplaced' hplaced (hsnapshot ▸ hdigest)
      show w.store.active = w.file.candidate.snapshot
      rw [← hsnapshot, ← heq, hsame]
    · exact ⟨hknown, False.elim, hstarted, hcurrent⟩
  | lockActive candidate =>
    rw [PolicyCall.advance]
    split
    next lock hlock =>
      exact ⟨hknown, fun _ => (RwLock.writer_of_write hlock).2, hstarted, hcurrent⟩
    · exact ⟨hknown, hholds, hstarted, hcurrent⟩
  | assignActive candidate =>
    refine ⟨fun _ hc => (nomatch hc), fun _ => hholds trivial, hstarted, fun hfresh => ?_⟩
    have hsame : candidate = w.file.candidate := hcurrent hfresh
    exact congrArg PolicyCandidate.snapshot hsame
  | lockSourceDigest =>
    rw [PolicyCall.advance]
    split
    · exact ⟨fun _ hc => (nomatch hc), hholds, hstarted, hcurrent⟩
    · exact ⟨hknown, hholds, hstarted, hcurrent⟩
  | assignSourceDigest => exact ⟨fun _ hc => (nomatch hc), hholds, hstarted, hcurrent⟩
  | dropSourceDigest => exact ⟨fun _ hc => (nomatch hc), hholds, hstarted, hcurrent⟩
  | dropActive => exact ⟨fun _ hc => (nomatch hc), False.elim, hstarted, hcurrent⟩
  | lockSnapshot =>
    rw [PolicyCall.advance]
    split
    · exact ⟨fun _ hc => (nomatch hc), False.elim, hstarted, hcurrent⟩
    · exact ⟨hknown, hholds, hstarted, hcurrent⟩
  | cloneSnapshot => exact ⟨fun _ hc => (nomatch hc), False.elim, hstarted, hcurrent⟩
  | returned snapshot => exact ⟨hknown, hholds, hstarted, hcurrent⟩
  | replaceFile file rollbackAuthorized =>
    exact ⟨hknown, False.elim, Nat.le_succ_of_le hstarted, fun _ => trivial⟩
  | lockInstall candidate rollbackAuthorized =>
    rw [PolicyCall.advance]
    split
    next lock hlock =>
      exact ⟨hknown, fun _ => (RwLock.writer_of_write hlock).2, hstarted, fun _ => trivial⟩
    · exact ⟨hknown, hholds, hstarted, hcurrent⟩
  | checkInstall candidate rollbackAuthorized =>
    rw [PolicyCall.advance]
    split
    · exact ⟨fun _ hc => (nomatch hc), False.elim, hstarted, fun _ => trivial⟩
    · exact ⟨hknown, hholds, hstarted, fun _ => trivial⟩
  | assignInstall candidate =>
    exact ⟨fun _ hc => (nomatch hc), hholds, hstarted, fun _ => trivial⟩
  | cloneInstalled => exact ⟨fun _ hc => (nomatch hc), False.elim, hstarted, fun _ => trivial⟩
  | installed result => exact ⟨hknown, hholds, hstarted, hcurrent⟩

theorem Invariant.load {file : StableFile r} (h : file.candidate.source ∈ placed) :
    Invariant placed (load file) where
  file := h
  active := ⟨_, StableFile.known h, rfl⟩
  threads := fun _ _ hthread => (nomatch hthread)

theorem Invariant.start (h : Invariant placed c) {call : PolicyCall r}
    (hknown : ∀ candidate ∈ call.candidate?, Known (r := r) placed candidate)
    (hholds : ¬call.HoldsActive) (hcurrent : call.Current c.host) :
    Invariant placed { c with threads := c.threads ++ [⟨c.host.replacements, call⟩] } where
  file := h.file
  active := h.active
  threads := by
    intro i thread hthread
    rw [List.getElem?_append] at hthread
    split at hthread
    · exact h.threads i thread hthread
    · have hnew := List.mem_singleton.mp (List.mem_of_getElem? hthread)
      subst hnew
      exact ⟨hknown, fun hh => (hholds hh).elim, le_rfl, fun _ => hcurrent⟩

theorem Invariant.next (h : Invariant placed c) (hinj : Set.InjOn r.sha256 placed)
    {turn : PolicyTurn r} (hplaced : ∀ source ∈ turn.sources, source ∈ placed)
    (hturn : c.Undisturbed turn) : Invariant placed (c.next turn) := by
  cases turn with
  | replace file =>
    exact ⟨hplaced _ (List.mem_singleton_self _), h.active,
      fun i thread hthread => (h.threads i thread hthread).replace file⟩
  | snapshot => exact h.start (fun _ hc => (nomatch hc)) id trivial
  | install file rollbackAuthorized =>
    have hfile := hplaced _ (List.mem_singleton_self _)
    exact h.start (fun candidate hc => Option.some.inj hc ▸ StableFile.known hfile) id trivial
  | step i =>
    cases hi : c.threads[i]? with
    | none =>
      rw [PolicyCalls.next, hi]
      exact h
    | some thread =>
      have hnext : c.next (.step i) = ⟨(thread.call.advance i c.host).2,
          c.threads.set i { thread with call := (thread.call.advance i c.host).1 }⟩ := by
        rw [PolicyCalls.next, hi]
      rw [hnext]
      have hthread := h.threads i thread hi
      obtain ⟨hremembered, htimely⟩ := hturn thread hi
      have hchange := PolicyCall.advance_change i thread.call c.host
      refine ⟨?_, ?_, fun j other hother => ?_⟩
      · cases hchange with
        | kept hfile => exact hfile ▸ h.file
        | assigned _ _ hfile => exact hfile ▸ h.file
        | replaced file hcall hhost =>
          rw [hhost]
          exact (hthread.known _ hcall).2
      · cases hchange with
        | kept _ _ hactive => exact hactive ▸ h.active
        | assigned candidate hcall _ _ hactive =>
          refine ⟨candidate, hthread.known candidate ?_, hactive.symm⟩
          cases hc : thread.call <;> rw [hc] at hcall <;> first | exact hcall | cases hcall
        | replaced file hcall hhost =>
          rw [hhost]
          exact h.active
      · by_cases hj : j = i
        · subst hj
          have hself : other = { thread with call := (thread.call.advance j c.host).1 } := by
            rw [List.getElem?_set_self (List.getElem?_eq_some_iff.mp hi).1] at hother
            exact (Option.some.inj hother).symm
          rw [hself]
          exact hthread.advance hinj h.file h.active hremembered
        · rw [List.getElem?_set_ne (Ne.symm hj)] at hother
          exact (h.threads j other hother).of_ne hthread hj hchange fun candidate hcall hne =>
            htimely candidate hcall hne other (List.mem_of_getElem? hother)

theorem Invariant.fresh (h : Invariant placed c) : c.Fresh := by
  intro thread hthread hstarted snapshot hreturned
  obtain ⟨i, hi⟩ := List.mem_iff_getElem?.mp hthread
  have hcurrent := (h.threads i thread hi).current hstarted
  cases hcall : thread.call <;> rw [hcall] at hreturned <;> cases hreturned
  rw [hcall] at hcurrent
  exact hcurrent

end Invariant

def sources (file : StableFile r) (turns : List (PolicyTurn r)) : List Bytes :=
  file.candidate.source :: turns.flatMap PolicyTurn.sources

/-- In every undisturbed run whose policies have different digests, a snapshot during which the
file is not replaced returns the policy in the file. -/
theorem snapshot_fresh (file : StableFile r) (turns : List (PolicyTurn r))
    (hinj : ∀ p ∈ sources file turns, ∀ q ∈ sources file turns, r.sha256 p = r.sha256 q → p = q)
    (hturns : Runs.Along next Undisturbed (load file) turns) :
    Runs.Throughout next Fresh (load file) turns := by
  have hinjOn : Set.InjOn r.sha256 {source | source ∈ sources file turns} :=
    fun p hp q hq h => hinj p hp q hq h
  have hplaced : Runs.Along next (fun _ turn => ∀ source ∈ turn.sources,
      source ∈ {source | source ∈ sources file turns}) (load file) turns := by
    refine Runs.along_of_forall fun turn hturn _ source hsource => ?_
    exact List.mem_cons_of_mem _ (List.mem_flatMap.mpr ⟨turn, hturn, hsource⟩)
  have hrun : Runs.Throughout next (Invariant {source | source ∈ sources file turns})
      (load file) turns :=
    (hplaced.and hturns).invariant (fun c turn hturn h => h.next hinjOn hturn.1 hturn.2)
      (Invariant.load List.mem_cons_self)
  exact hrun.mono fun _ h => h.fresh

/-! A policy is installed and the earlier one put back: the store never sees it again. -/

def exampleDocument : AuthorizationMode → PolicyDocument
  | .disabled => ⟨1, 2, .disabled⟩
  | mode => ⟨1, 1, mode⟩

def exampleText : AuthorizationMode → String
  | .disabled => "schema_version = 1\ngeneration = 2\nmode = \"disabled\"\n"
  | .shadow => "schema_version = 1\ngeneration = 1\nmode = \"shadow\"\n"
  | .enforce => "schema_version = 1\ngeneration = 1\nmode = \"enforce\"\n"

def exampleReader : PolicyReader where
  euid := 0
  sha256 := Sha256.sha256
  parse source :=
    if source = utf8 (exampleText .enforce) then .ok (exampleDocument .enforce)
    else if source = utf8 (exampleText .disabled) then .ok (exampleDocument .disabled)
    else .error .parse

def exampleFile (mode : AuthorizationMode) : PolicyFile where
  isSymlink := false
  isFile := true
  nlink := 1
  uid := 0
  mode := 0o600
  source := utf8 (exampleText mode)

def exampleCandidate (mode : AuthorizationMode) : PolicyCandidate where
  snapshot :=
    ⟨(exampleDocument mode).generation, Sha256.sha256 (utf8 (exampleText mode)), exampleDocument mode⟩
  source := utf8 (exampleText mode)

def enforcing : StableFile exampleReader :=
  ⟨exampleFile .enforce, exampleCandidate .enforce, by decide +kernel⟩

def disabling : StableFile exampleReader :=
  ⟨exampleFile .disabled, exampleCandidate .disabled, by decide +kernel⟩

def returned : List (PolicyTurn exampleReader) :=
  [.install disabling false, .step 0, .step 0, .step 0, .step 0, .step 0, .replace enforcing,
    .snapshot, .step 1, .step 1, .step 1, .step 1, .step 1]

theorem returned_policy_not_observed :
    ¬Runs.Throughout next Fresh (load enforcing) returned := by
  intro h
  exact absurd h.last (by decide +kernel)

/-- A policy is placed and observed, and the earlier one placed and observed again. -/
theorem snapshot_fresh_rollback :
    Runs.Throughout next Fresh (load enforcing)
      ([.replace disabling, .snapshot] ++ List.replicate 13 (.step 0) ++
        [.replace enforcing, .snapshot] ++ List.replicate 13 (.step 1)) :=
  snapshot_fresh enforcing _ (by decide +kernel) (by decide +kernel)

end PolicyCalls
end Ferrocrate.Authorization
