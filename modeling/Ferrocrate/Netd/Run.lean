import Ferrocrate.Netd.Stable

/-! Runs of the network helper: frames, stops in the middle of a frame, and starts. -/
namespace Ferrocrate.Netd
open Lib
open Lib.Program
open Witness (Id)
variable {κ γ : Type} {sv : Services κ γ}

def Host.idle (h : Host sv) : Host sv := { h with calls := [] }

structure Received where
  uid : UInt32
  frame : Bytes
  now : UInt64
  stores : List StoreOutcome

namespace Received

def start (r : Received) (h : Host sv) : Host sv := { h.idle with stores := r.stores }

def handled (r : Received) (h : Host sv) : Except NetdResponse NetdResponse × Host sv :=
  handlePeer sv r.uid r.frame r.now (r.start h)

def response (r : Received) (h : Host sv) : NetdResponse :=
  match (r.handled h).1 with
  | .ok response => response
  | .error response => response

def calls (r : Received) (h : Host sv) : List Call := (r.handled h).2.calls

def callsBefore (r : Received) (h : Host sv) (count : Nat) : List Call :=
  (r.calls h).drop ((r.calls h).length - count)

end Received

def storedFile : List Call → Option JournalFrame → Option JournalFrame
  | [], file => file
  | .stored frame :: _, _ => some frame
  | _ :: calls, file => storedFile calls file

structure Daemon (sv : Services κ γ) where
  host : Host sv
  running : Bool

inductive Step (sv : Services κ γ) where
  | frame (received : Received)
  | crash (received : Received) (count : Nat)
  | start (config : Config sv) (newJournalId : Id) (stores : List StoreOutcome)

namespace Step

def loaded (config : Config sv) (newJournalId : Id) (stores : List StoreOutcome)
    (file : Option JournalFrame) : Except Unit Unit × Host sv :=
  loadJournal sv newJournalId ⟨.compose config, file, stores, []⟩

def apply (d : Daemon sv) : Step sv → Daemon sv
  | .frame r => if d.running then ⟨(r.handled d.host).2, true⟩ else d
  | .crash r count => if d.running then
      ⟨{ d.host with file := storedFile (r.callsBefore d.host count) d.host.file }, false⟩ else d
  | .start config newJournalId stores =>
    let result := loaded config newJournalId stores d.host.file
    ⟨result.2, result.1.isOk⟩

def calls (d : Daemon sv) : Step sv → List Call
  | .frame r => if d.running then r.calls d.host else []
  | .crash r count => if d.running then r.callsBefore d.host count else []
  | .start _ _ _ => []

def received : Step sv → Option Received
  | .frame r => some r
  | .crash r _ => some r
  | .start _ _ _ => none

def Executes (d : Daemon sv) (s : Step sv) : Prop :=
  ∃ call ∈ s.calls d, call = .applyLegacyDesired ∨ ∃ identity, call = .beginOverlayIntent identity

end Step

def Daemon.run (d : Daemon sv) (steps : List (Step sv)) : Daemon sv := steps.foldl Step.apply d

theorem Daemon.run_append (d : Daemon sv) (steps steps' : List (Step sv)) :
    d.run (steps ++ steps') = (d.run steps).run steps' :=
  List.foldl_append

end Ferrocrate.Netd
