import Ferrocrate.Node.JournalRun
import Ferrocrate.Node.Supervisor

/-! What one journaled mutation does: a record of the intent, the effect, and a record of the
outcome, with an end after each of them. Everything else a pass writes are notes. -/
namespace Ferrocrate.Node
open Lib
open Lib.Program

def NodeEvent.IsNote : NodeEvent → Prop
  | recorded _ | journalFailed _ => True
  | mutated _ _ _ => False

def NodeEvent.line? : NodeEvent → Option JournalEntry
  | recorded entry => some entry
  | journalFailed _ | mutated _ _ _ => none

def linesOf (events : List NodeEvent) : List JournalEntry := (events.filterMap (·.line?)).reverse

theorem linesOf_append (events earlier : List NodeEvent) :
    linesOf (events ++ earlier) = linesOf earlier ++ linesOf events := by
  simp [linesOf]

def NodeHost.lines (h : NodeHost) : List JournalEntry := h.journal.getD []

structure Noted (h h' : NodeHost) : Prop where
  executor : h'.executor = h.executor
  workload : h'.workload = h.workload
  trace : ∃ notes : List NodeEvent, (∀ e ∈ notes, e.IsNote) ∧ h'.trace = notes ++ h.trace ∧
    h'.lines = h.lines ++ linesOf notes

theorem Noted.of_eq {h h' : NodeHost} (hexecutor : h'.executor = h.executor)
    (hworkload : h'.workload = h.workload) (hjournal : h'.journal = h.journal)
    (htrace : h'.trace = h.trace) : Noted h h' :=
  ⟨hexecutor, hworkload, [], by simp, htrace, by simp [NodeHost.lines, hjournal, linesOf]⟩

theorem Noted.trans {h h' h'' : NodeHost} (h₁ : Noted h h') (h₂ : Noted h' h'') : Noted h h'' := by
  obtain ⟨notes, hnotes, htrace, hlines⟩ := h₁.trace
  obtain ⟨notes', hnotes', htrace', hlines'⟩ := h₂.trace
  refine ⟨h₂.executor.trans h₁.executor, h₂.workload.trans h₁.workload, notes' ++ notes, ?_, ?_,
    ?_⟩
  · intro e he
    exact (List.mem_append.mp he).elim (hnotes' e) (hnotes e)
  · rw [htrace', htrace, List.append_assoc]
  · rw [hlines', hlines, linesOf_append, List.append_assoc]

def eventsSince (h h' : NodeHost) : List NodeEvent :=
  h'.trace.take (h'.trace.length - h.trace.length)

theorem eventsSince_eq {h h' : NodeHost} {events : List NodeEvent}
    (htrace : h'.trace = events ++ h.trace) : eventsSince h h' = events := by
  simp [eventsSince, htrace]

def NodeHost.performed (h : NodeHost) (intent : MutationIntent) : NodeHost :=
  { h with
    executor := (h.executor.mutate intent).2
    trace := .mutated intent (h.executor.mutate intent).1.isOk
      (h.executor.mutate intent).2.instances :: h.trace }

def MutationIntent.record (intent : MutationIntent) (seq : UInt64) : IntentRecord :=
  ⟨seq, intent.action, intent.instanceId, intent.service, intent.targetRevision,
    intent.issuedUnix⟩

variable {sz : NodeSizes} {h : NodeHost} {E : Halt → NodeHost → Prop} {Q : Unit → NodeHost → Prop}

theorem wp_trip {point : LifecycleFaultPoint} (hQ : Q () h) (hE : ∀ h', Noted h h' → h'.trace = h.trace →
      E (.crash point) h') : wp (trip point) Q E h := by
  simp only [trip, wp_bind, wp_get, wp_runIf, wp_modify, wp_throw]
  exact ⟨fun _ => hE _ (.of_eq rfl rfl rfl rfl) rfl, fun _ => hQ⟩

def NodeHost.wrote (h : NodeHost) (entry : JournalEntry) : NodeHost :=
  { h with
    appendFails := h.appendFails.drop 1
    journal := some (h.journal.getD [] ++ [entry])
    trace := .recorded entry :: h.trace }

theorem noted_wrote (h : NodeHost) (entry : JournalEntry) : Noted h (h.wrote entry) :=
  ⟨rfl, rfl, [.recorded entry], by simp [NodeEvent.IsNote], rfl, rfl⟩

def NodeHost.refused (h : NodeHost) (error : JournalError) : NodeHost :=
  { h with
    appendFails := h.appendFails.drop 1
    trace := .journalFailed error :: h.trace }

theorem noted_refused (h : NodeHost) (error : JournalError) : Noted h (h.refused error) :=
  ⟨rfl, rfl, [.journalFailed error], by simp [NodeEvent.IsNote], rfl, (List.append_nil _).symm⟩

theorem wp_appendEntry {α : Type} {Q : α → NodeHost → Prop}
    {append : LifecycleJournal → Bool → Except JournalError (α × LifecycleJournal)}
    (entry : α → JournalEntry)
    (hline : ∀ a file, append h.journal (h.appendFails.head?.getD false) = .ok (a, file) →
      file = some (h.journal.getD [] ++ [entry a]))
    (hQ : ∀ a file, append h.journal (h.appendFails.head?.getD false) = .ok (a, file) →
      Q a (h.wrote (entry a)))
    (hE : ∀ error, append h.journal (h.appendFails.head?.getD false) = .error error →
      E (.error (.journal error)) (h.refused error)) :
    wp (appendEntry append) Q E h := by
  simp only [appendEntry, wp_bind, wp_get, wp_modify]
  cases happend : append h.journal (h.appendFails.head?.getD false) with
  | error error =>
    simp only [journalError, wp_bind, wp_modify, wp_throw]
    exact hE error happend
  | ok pair =>
    obtain ⟨a, file⟩ := pair
    have hfile := hline a file happend
    simp only [wp_bind, wp_modify, wp_pure]
    have hlast : (file.bind (·.getLast?)) = some (entry a) := by simp [hfile]
    rw [hlast, hfile]
    exact hQ a file happend

variable {lineBytes : JournalEntry → Nat} {file file' : LifecycleJournal} {now : Int64}

theorem appendIntent_eq_ok
    {fails : Bool} {action : MutationAction} {id service : String} {revision seq : UInt64} (h : file.appendIntent lineBytes fails action id service revision now
      = .ok (seq, file')) :
    file' = some (file.getD [] ++ [.intent ⟨seq, action, id, service, revision, now⟩]) := by
  obtain ⟨entries, hload, h⟩ := Except.bind_eq_ok.mp h
  obtain ⟨written, hwritten, h⟩ := Except.bind_eq_ok.mp h
  cases h
  exact (JournalSession.append_eq_ok hwritten).2

theorem appendOutcome_eq_ok
    {fails : Bool} {seq : UInt64} {ok : Bool} {detail : String}
    (h : file.appendOutcome lineBytes fails seq ok detail now = .ok file') :
    file' = some (file.getD [] ++ [.outcome ⟨seq, ok, detail, now⟩]) :=
  (JournalSession.append_eq_ok h).2

variable {intent : MutationIntent}

theorem wp_appendIntent {Q : UInt64 → NodeHost → Prop}
    (hQ : ∀ seq, Q seq (h.wrote (.intent (intent.record seq))))
    (hE : ∀ error, E (.error (.journal error)) (h.refused error)) :
    wp (appendIntent sz intent.action intent.instanceId intent.service intent.targetRevision
      intent.issuedUnix) Q E h := by
  refine wp_appendEntry (fun seq => .intent (intent.record seq)) ?_ (fun seq _ _ => hQ seq)
    (fun error _ => hE error)
  intro seq file happend
  exact appendIntent_eq_ok happend

theorem wp_appendOutcome
    {seq : UInt64} {ok : Bool} {detail : String}
    (hQ : Q () (h.wrote (.outcome ⟨seq, ok, detail, now⟩)))
    (hE : ∀ error, E (.error (.journal error)) (h.refused error)) :
    wp (appendOutcome sz seq ok detail now) Q E h := by
  refine wp_appendEntry (fun _ => .outcome ⟨seq, ok, detail, now⟩) ?_ (fun _ _ _ => hQ)
    (fun error _ => hE error)
  intro a file happend
  obtain ⟨file', happend, heq⟩ : ∃ file', h.journal.appendOutcome sz.lineBytes
      (h.appendFails.head?.getD false) seq ok detail now = .ok file' ∧ file' = file := by
    revert happend
    cases h.journal.appendOutcome sz.lineBytes (h.appendFails.head?.getD false) seq ok detail now with
    | error _ => intro happend; cases happend
    | ok file' =>
      intro happend
      cases happend
      exact ⟨_, rfl, rfl⟩
  exact heq ▸ appendOutcome_eq_ok happend

theorem wp_perform {Q : Except ExecutorError Unit → NodeHost → Prop} (hQ : Q (h.executor.mutate intent).1 (h.performed intent)) :
    wp (perform intent) Q E h := hQ

def MutationIntent.apply (sz : NodeSizes) (intent : MutationIntent) : Pass Unit :=
  applyMutation sz intent.action intent.instanceId intent.service intent.image
    intent.targetRevision intent.issuedUnix

theorem applyMutation_eq (action : MutationAction) (id service image : String)
    (revision : UInt64) (now : Int64) : applyMutation sz action id service image revision now
      = MutationIntent.apply sz ⟨action, id, service, image, revision, now⟩ := rfl

def NodeHost.announced (h : NodeHost) (intent : MutationIntent) (seq : UInt64) : NodeHost :=
  h.wrote (.intent (intent.record seq))

def Halt.OfMutation (h h' : NodeHost) : Halt → Prop
  | .crash _ => True
  | .error (.executor _) => True
  | .error (.journal j) => ∃ events, h'.trace = .journalFailed j :: events ++ h.trace
  | .error _ => False

theorem wp_apply
    (hbefore : ∀ e h', Noted h h' → e.OfMutation h h' → E e h')
    (hafter : ∀ seq e h', Noted ((h.announced intent seq).performed intent) h' →
      e.OfMutation h h' → E e h')
    (hdone : (h.executor.mutate intent).1 = .ok () → ∀ seq, Q ()
      (((h.announced intent seq).performed intent).wrote
        (.outcome ⟨seq, true, "applied", intent.issuedUnix⟩))) :
    wp (intent.apply sz) Q E h := by
  rw [MutationIntent.apply, applyMutation, wp_bind]
  refine wp_appendIntent (fun seq => ?_)
    (fun error => hbefore _ _ (noted_refused h error) ⟨[], rfl⟩)
  rw [wp_bind]
  refine wp_trip ?_ fun h' hnoted _ => hbefore _ _ ((noted_wrote h _).trans hnoted) trivial
  rw [wp_bind]
  refine wp_perform ?_
  rw [wp_bind]
  refine wp_trip ?_ fun h' hnoted _ => hafter seq _ _ hnoted trivial
  have hresult : ((h.wrote (.intent (intent.record seq))).executor.mutate intent).1
      = (h.executor.mutate intent).1 := rfl
  rw [hresult]
  cases hmutate : (h.executor.mutate intent).1 with
  | ok u =>
    simp only [wp_bind]
    refine wp_appendOutcome ?_ fun error => hafter seq _ _ (noted_refused _ error) ⟨[_, _], rfl⟩
    exact wp_trip (hdone hmutate seq) fun h' hnoted _ =>
      hafter seq _ _ ((noted_wrote _ _).trans hnoted) trivial
  | error error =>
    simp only [wp_bind, wp_throw]
    refine wp_appendOutcome ?_ fun error => hafter seq _ _ (noted_refused _ error) ⟨[_, _], rfl⟩
    exact wp_trip (hafter seq _ _ (noted_wrote _ _) trivial) fun h' hnoted _ =>
      hafter seq _ _ ((noted_wrote _ _).trans hnoted) trivial

theorem wp_apply_executor (intent : MutationIntent) : wp (intent.apply sz)
    (fun _ h' => h'.executor = (h.executor.mutate intent).2 ∧ (h.executor.mutate intent).1 = .ok ())
    (fun _ _ => True) h :=
  wp_apply (fun _ _ _ _ => trivial) (fun _ _ _ _ _ => trivial) fun hok _ => ⟨rfl, hok⟩

end Ferrocrate.Node
