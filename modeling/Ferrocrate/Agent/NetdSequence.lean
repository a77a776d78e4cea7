import Ferrocrate.Lib.Bytes
import Ferrocrate.Lib.OrdMap
import Ferrocrate.Lib.Runs
import Ferrocrate.Lib.Text
import Mathlib.Data.List.Pairwise
import Mathlib.Data.Prod.Lex

/-! The sequence of helper revisions: reservations, failed writes and restarts. -/
namespace Ferrocrate.Agent
open Lib

@[ext]
structure SequenceValue where
  epoch : UInt64
  revision : UInt64
deriving DecidableEq

def SequenceValue.order (value : SequenceValue) : ℕ ×ₗ ℕ :=
  toLex (value.epoch.toNat, value.revision.toNat)

inductive SequenceError where
  | io
  | corrupt
  | overflow

structure SequenceState where
  value : SequenceValue
  controller : OrdMap String SequenceValue

def SequenceState.bump (state : SequenceState) : Option SequenceValue :=
  (checkedAdd state.value.revision 1).map fun revision => ⟨state.value.epoch, revision⟩

def reservationKey (semanticEpoch semanticRevision : UInt64) (child : UInt32) : String :=
  toString semanticEpoch.toNat ++ ":" ++ toString semanticRevision.toNat ++ ":" ++
    toString child.toNat

inductive Request where
  | child
  | controller (key : String)
deriving DecidableEq

structure Answer where
  request : Request
  value : SequenceValue
deriving DecidableEq

structure SequenceHost where
  file : Option SequenceState
  running : Option SequenceState
  answers : List Answer

def SequenceHost.initial : SequenceHost := ⟨none, none, []⟩

namespace SequenceHost

def persistLocked (state : SequenceState) (stored : Bool) (host : SequenceHost) :
    Except SequenceError Unit × SequenceHost :=
  if stored then
    (.ok (), { host with file := some state, running := some state })
  else
    (.error .io, { host with running := some state })

def openSequence (initial : SequenceValue) (stored : Bool) (host : SequenceHost) :
    Except SequenceError Unit × SequenceHost :=
  let state := host.file.getD ⟨initial, .empty⟩
  if stored then
    persistLocked state true host
  else
    (.error .io, { host with running := none })

def advanceController (value : SequenceValue) (stored : Bool) (host : SequenceHost) :
    Except SequenceError Unit × SequenceHost :=
  match host.running with
  | none => (.error .corrupt, host)
  | some state =>
    if state.value.order < value.order then
      persistLocked { state with value := value } stored host
    else
      (.ok (), host)

def reserveController (semanticEpoch semanticRevision : UInt64) (child : UInt32) (stored : Bool)
    (host : SequenceHost) : Except SequenceError SequenceValue × SequenceHost :=
  match host.running with
  | none => (.error .corrupt, host)
  | some state =>
    let key := reservationKey semanticEpoch semanticRevision child
    match state.controller.get key with
    | some value => (.ok value, host)
    | none =>
      match state.bump with
      | none => (.error .overflow, host)
      | some value =>
        match persistLocked ⟨value, state.controller.insert key value⟩ stored host with
        | (.ok (), host) => (.ok value, host)
        | (.error e, host) => (.error e, host)

def reserveChild (stored : Bool) (host : SequenceHost) :
    Except SequenceError SequenceValue × SequenceHost :=
  match host.running with
  | none => (.error .corrupt, host)
  | some state =>
    match state.bump with
    | none => (.error .overflow, host)
    | some value =>
      match persistLocked { state with value := value } stored host with
      | (.ok (), host) => (.ok value, host)
      | (.error e, host) => (.error e, host)

def answer (request : Request) :
    Except SequenceError SequenceValue × SequenceHost → SequenceHost
  | (.ok value, host) => { host with answers := host.answers ++ [⟨request, value⟩] }
  | (.error _, host) => host

end SequenceHost

inductive SequenceCall where
  | opening (initial : SequenceValue) (stored : Bool)
  | advanceController (value : SequenceValue) (stored : Bool)
  | reserveController (semanticEpoch semanticRevision : UInt64) (child : UInt32) (stored : Bool)
  | reserveChild (stored : Bool)

def SequenceHost.apply (host : SequenceHost) : SequenceCall → SequenceHost
  | .opening initial stored => (openSequence initial stored host).2
  | .advanceController value stored => (advanceController value stored host).2
  | .reserveController epoch revision child stored =>
    answer (.controller (reservationKey epoch revision child))
      (reserveController epoch revision child stored host)
  | .reserveChild stored => answer .child (reserveChild stored host)

/-- Two reservations ask for the same thing only as calls for one key. -/
def Request.Same (a b : Request) : Prop := ∃ key, a = .controller key ∧ b = .controller key

structure SoundAnswers (answers : List Answer) : Prop where
  unique : answers.Pairwise fun a b => ¬a.request.Same b.request → a.value ≠ b.value
  increasing : ∀ earlier a later, answers = earlier ++ a :: later →
    (∀ b ∈ earlier, ¬b.request.Same a.request) → ∀ b ∈ earlier, b.value.order < a.value.order
  repeatable : answers.Pairwise fun a b => a.request.Same b.request → a.value = b.value

theorem SoundAnswers.append {answers : List Answer} (h : SoundAnswers answers) {a : Answer}
    (hunique : ∀ b ∈ answers, ¬b.request.Same a.request → b.value ≠ a.value)
    (hincreasing : (∀ b ∈ answers, ¬b.request.Same a.request) →
      ∀ b ∈ answers, b.value.order < a.value.order)
    (hrepeatable : ∀ b ∈ answers, b.request.Same a.request → b.value = a.value) :
    SoundAnswers (answers ++ [a]) where
  unique := by
    rw [List.pairwise_append]
    refine ⟨h.unique, List.pairwise_singleton .., ?_⟩
    intro b hb c hc
    rw [List.mem_singleton.mp hc]
    exact hunique b hb
  increasing := by
    intro earlier c later heq hfresh
    rcases List.eq_nil_or_concat later with rfl | ⟨front, last, rfl⟩
    · obtain ⟨rfl, hlast⟩ := List.append_inj' heq rfl
      obtain rfl := (List.cons.inj hlast).1
      exact hincreasing hfresh
    · rw [List.concat_eq_append, ← List.cons_append, ← List.append_assoc] at heq
      obtain ⟨hfront, -⟩ := List.append_inj' heq rfl
      exact h.increasing earlier c front hfront hfresh
  repeatable := by
    rw [List.pairwise_append]
    refine ⟨h.repeatable, List.pairwise_singleton .., ?_⟩
    intro b hb c hc
    rw [List.mem_singleton.mp hc]
    exact hrepeatable b hb

theorem Request.Same.symm {a b : Request} (h : a.Same b) : b.Same a := by
  obtain ⟨key, ha, hb⟩ := h
  exact ⟨key, hb, ha⟩

theorem SoundAnswers.value_ne {answers : List Answer} (h : SoundAnswers answers) {a b : Answer}
    (ha : a ∈ answers) (hb : b ∈ answers) (hdiff : ¬a.request.Same b.request) (hne : a ≠ b) :
    a.value ≠ b.value := by
  have : Std.Symm fun a b : Answer => ¬a.request.Same b.request → a.value ≠ b.value :=
    ⟨fun a b hab hsame => (hab fun hs => hsame hs.symm).symm⟩
  exact h.unique.forall ha hb hne hdiff

structure SequenceState.Extends (later earlier : SequenceState) : Prop where
  value : earlier.value.order ≤ later.value.order
  controller : ∀ key value, earlier.controller.get key = some value →
    later.controller.get key = some value

structure SequenceState.Keeps (state : SequenceState) (a : Answer) : Prop where
  value : a.value.order ≤ state.value.order
  controller : ∀ key, a.request = .controller key → state.controller.get key = some a.value

theorem SequenceState.Extends.refl (state : SequenceState) : state.Extends state :=
  ⟨le_refl _, fun _ _ h => h⟩

theorem SequenceState.Extends.trans {a b c : SequenceState} (hab : b.Extends a)
    (hbc : c.Extends b) : c.Extends a :=
  ⟨hab.value.trans hbc.value, fun key value h => hbc.controller key value (hab.controller key value h)⟩

theorem SequenceState.Keeps.mono {later earlier : SequenceState} {a : Answer}
    (h : earlier.Keeps a) (hext : later.Extends earlier) : later.Keeps a :=
  ⟨h.value.trans hext.value, fun key hkey => hext.controller key _ (h.controller key hkey)⟩

theorem SequenceState.bump_lt {state : SequenceState} {value : SequenceValue}
    (h : state.bump = some value) : state.value.order < value.order := by
  obtain ⟨revision, hrevision, rfl⟩ := Option.map_eq_some_iff.mp h
  rw [SequenceValue.order, SequenceValue.order, Prod.Lex.toLex_lt_toLex]
  have hnat := toNat_checkedAdd hrevision
  exact Or.inr ⟨rfl, by simp [hnat]⟩

structure SequenceHost.Sound (host : SequenceHost) : Prop where
  kept : ∀ a ∈ host.answers, ∃ file, host.file = some file ∧ file.Keeps a
  running : ∀ state, host.running = some state →
    ∃ file, host.file = some file ∧ state.Extends file
  answers : SoundAnswers host.answers

namespace SequenceHost

theorem initial_sound : initial.Sound where
  kept := by simp [initial]
  running := by simp [initial]
  answers := ⟨.nil, by simp [initial], .nil⟩

variable {host : SequenceHost} {state : SequenceState}

theorem Sound.persistLocked (h : host.Sound)
    {stored : Bool} (hext : ∀ file, host.file = some file → state.Extends file)
    (hlost : stored = false → ∃ file, host.file = some file) :
    (persistLocked state stored host).2.Sound := by
  cases stored with
  | true =>
    refine ⟨?_, ?_, h.answers⟩
    · intro a ha
      obtain ⟨file, hfile, hkeeps⟩ := h.kept a ha
      exact ⟨state, rfl, hkeeps.mono (hext file hfile)⟩
    · intro state' hstate
      obtain rfl := Option.some.inj hstate
      exact ⟨state, rfl, .refl state⟩
  | false =>
    refine ⟨h.kept, ?_, h.answers⟩
    intro state' hstate
    obtain rfl := Option.some.inj hstate
    obtain ⟨file, hfile⟩ := hlost rfl
    exact ⟨file, hfile, hext file hfile⟩

theorem Sound.persistRunning (h : host.Sound) {state later : SequenceState}
    (hrunning : host.running = some state) (hext : later.Extends state) (stored : Bool) :
    (SequenceHost.persistLocked later stored host).2.Sound := by
  obtain ⟨file, hfile, hstate⟩ := h.running state hrunning
  apply h.persistLocked
  · intro file' hfile'
    obtain rfl := Option.some.inj (hfile.symm.trans hfile')
    exact hstate.trans hext
  · intro _
    exact ⟨file, hfile⟩

theorem Sound.answer (h : host.Sound) {a : Answer} {file : SequenceState}
    (hfile : host.file = some file) (hkeeps : file.Keeps a)
    (hanswers : SoundAnswers (host.answers ++ [a])) :
    Sound { host with answers := host.answers ++ [a] } where
  kept := by
    intro b hb
    rcases List.mem_append.mp hb with hb | hb
    · exact h.kept b hb
    · rw [List.mem_singleton.mp hb]
      exact ⟨file, hfile, hkeeps⟩
  running := h.running
  answers := hanswers

theorem Sound.keeps (h : host.Sound)
    (hrunning : host.running = some state) {a : Answer} (ha : a ∈ host.answers) :
    state.Keeps a := by
  obtain ⟨file, hfile, hkeeps⟩ := h.kept a ha
  obtain ⟨file', hfile', hext⟩ := h.running state hrunning
  obtain rfl := Option.some.inj (hfile.symm.trans hfile')
  exact hkeeps.mono hext

theorem Sound.reserve (h : host.Sound)
    (hrunning : host.running = some state) {value : SequenceValue}
    (hbump : state.bump = some value) {request : Request}
    {table : OrdMap String SequenceValue}
    (htable : ∀ key v, state.controller.get key = some v → table.get key = some v)
    (hrequest : ∀ key, request = .controller key →
      state.controller.get key = none ∧ table.get key = some value) :
    Sound { host with file := some ⟨value, table⟩, running := some ⟨value, table⟩,
                      answers := host.answers ++ [⟨request, value⟩] } := by
  have hext : SequenceState.Extends ⟨value, table⟩ state :=
    ⟨(SequenceState.bump_lt hbump).le, htable⟩
  have hlater : ∀ b ∈ host.answers, b.value.order < value.order := by
    intro b hb
    exact (h.keeps hrunning hb).value.trans_lt (SequenceState.bump_lt hbump)
  have hfresh : ∀ b ∈ host.answers, ¬b.request.Same request := by
    rintro b hb ⟨key, hbkey, hkey⟩
    have hget := (h.keeps hrunning hb).controller key hbkey
    rw [(hrequest key hkey).1] at hget
    cases hget
  apply (h.persistRunning hrunning hext true).answer rfl
  · exact ⟨le_refl _, fun key hkey => (hrequest key hkey).2⟩
  · apply h.answers.append
    · intro b hb _ heq
      exact (hlater b hb).ne (congrArg SequenceValue.order heq)
    · intro _
      exact hlater
    · intro b hb hsame
      exact absurd hsame (hfresh b hb)

theorem Sound.repeat (h : host.Sound)
    (hrunning : host.running = some state) {key : String} {value : SequenceValue}
    (hget : state.controller.get key = some value) {earlier : Answer}
    (hearlier : earlier ∈ host.answers) (hkey : earlier.request = .controller key) :
    Sound { host with answers := host.answers ++ [⟨.controller key, value⟩] } := by
  have hvalue : ∀ b ∈ host.answers, b.request = .controller key → b.value = value := by
    intro b hb hbkey
    have := (h.keeps hrunning hb).controller key hbkey
    rw [hget] at this
    exact (Option.some.inj this).symm
  have hsame : earlier.request.Same (.controller key) := ⟨key, hkey, rfl⟩
  obtain ⟨file, hfile, hkeeps⟩ := h.kept earlier hearlier
  have hv := hvalue earlier hearlier hkey
  apply h.answer hfile
  · refine ⟨hv ▸ hkeeps.value, ?_⟩
    intro key' hkey'
    obtain rfl := Request.controller.inj hkey'
    exact hv ▸ hkeeps.controller key hkey
  · apply h.answers.append
    · intro b hb hdiff
      have hne : b ≠ earlier := by
        rintro rfl
        exact hdiff hsame
      have hvalue_ne : b.value ≠ earlier.value :=
        h.answers.value_ne hb hearlier (fun hs => hdiff (hkey ▸ hs)) hne
      rwa [hv] at hvalue_ne
    · intro hfresh
      exact absurd hsame (hfresh earlier hearlier)
    · rintro b hb ⟨key', hbkey, hkey'⟩
      obtain rfl := Request.controller.inj hkey'
      exact hvalue b hb hbkey

theorem Sound.openSequence (h : host.Sound) (initial : SequenceValue)
    (stored : Bool) : (openSequence initial stored host).2.Sound := by
  cases stored with
  | true =>
    have hrun : SequenceHost.openSequence initial true host =
        SequenceHost.persistLocked (host.file.getD ⟨initial, .empty⟩) true host := rfl
    rw [hrun]
    apply h.persistLocked
    · intro file hfile
      rw [hfile]
      exact .refl file
    · intro hlost
      cases hlost
  | false => exact ⟨h.kept, by simp [SequenceHost.openSequence], h.answers⟩

theorem Sound.advanceController (h : host.Sound) (value : SequenceValue)
    (stored : Bool) : (advanceController value stored host).2.Sound := by
  unfold SequenceHost.advanceController
  cases hrunning : host.running with
  | none => exact h
  | some state =>
    dsimp only
    by_cases hlt : state.value.order < value.order
    · have hext : SequenceState.Extends { state with value := value } state :=
        ⟨hlt.le, fun _ _ hget => hget⟩
      rw [if_pos hlt]
      exact h.persistRunning hrunning hext stored
    · rw [if_neg hlt]
      exact h

theorem Sound.reserveChild (h : host.Sound) (stored : Bool) :
    (SequenceHost.answer .child (reserveChild stored host)).Sound := by
  unfold SequenceHost.reserveChild
  cases hrunning : host.running with
  | none => exact h
  | some state =>
    dsimp only
    cases hbump : state.bump with
    | none => exact h
    | some value =>
      have hext : SequenceState.Extends { state with value := value } state :=
        ⟨(SequenceState.bump_lt hbump).le, fun _ _ hget => hget⟩
      cases stored with
      | true => exact h.reserve hrunning hbump hext.controller (by simp)
      | false => exact h.persistRunning hrunning hext false

def Answered (host : SequenceHost) (key : String) : Prop :=
  ∀ state, host.running = some state → (state.controller.get key).isSome →
    ∃ a ∈ host.answers, a.request = .controller key

instance (host : SequenceHost) (key : String) : Decidable (host.Answered key) :=
  match hrunning : host.running with
  | none => .isTrue fun state h => by simp [hrunning] at h
  | some state =>
    decidable_of_iff ((state.controller.get key).isSome →
        ∃ a ∈ host.answers, a.request = .controller key)
      ⟨fun h _ hstate => Option.some.inj (hrunning.symm.trans hstate) ▸ h, fun h => h state hrunning⟩

theorem Sound.reserveController (h : host.Sound)
    {epoch revision : UInt64} {child : UInt32}
    (hanswered : host.Answered (reservationKey epoch revision child)) (stored : Bool) :
    (SequenceHost.answer (.controller (reservationKey epoch revision child))
      (reserveController epoch revision child stored host)).Sound := by
  unfold SequenceHost.reserveController
  cases hrunning : host.running with
  | none => exact h
  | some state =>
    dsimp only
    cases hget : state.controller.get (reservationKey epoch revision child) with
    | some value =>
      obtain ⟨earlier, hearlier, hkey⟩ := hanswered state hrunning (by simp [hget])
      exact h.repeat hrunning hget hearlier hkey
    | none =>
      cases hbump : state.bump with
      | none => exact h
      | some value =>
        have hinsert : ∀ key v, state.controller.get key = some v →
            (state.controller.insert (reservationKey epoch revision child) value).get key
              = some v :=
          fun key v hv => OrdMap.get_insert_of_get_eq_none value hget hv
        cases stored with
        | true =>
          apply h.reserve hrunning hbump hinsert
          intro key hkey
          obtain rfl := Request.controller.inj hkey
          exact ⟨hget, OrdMap.get_insert_self ..⟩
        | false =>
          exact h.persistRunning hrunning ⟨(SequenceState.bump_lt hbump).le, hinsert⟩ false

/-- The step condition: no reservation is read back from the table that no call returned. -/
def Allowed (host : SequenceHost) : SequenceCall → Prop
  | .reserveController epoch revision child _ =>
    host.Answered (reservationKey epoch revision child)
  | _ => True

instance (host : SequenceHost) : ∀ call, Decidable (host.Allowed call)
  | .reserveController epoch revision child _ =>
    inferInstanceAs (Decidable (host.Answered (reservationKey epoch revision child)))
  | .opening .. => .isTrue trivial
  | .advanceController .. => .isTrue trivial
  | .reserveChild .. => .isTrue trivial

theorem Sound.apply (host : SequenceHost) (call : SequenceCall) (hcall : host.Allowed call)
    (h : host.Sound) : (host.apply call).Sound := by
  cases call with
  | opening initial stored => exact h.openSequence initial stored
  | advanceController value stored => exact h.advanceController value stored
  | reserveController epoch revision child stored => exact h.reserveController hcall stored
  | reserveChild stored => exact h.reserveChild stored

end SequenceHost

/-- Reservations are unique, increasing and repeatable in every run in which no call reads back a
reservation whose write failed. -/
theorem sequence_reservations_sound {calls : List SequenceCall}
    (h : Runs.Along SequenceHost.apply SequenceHost.Allowed .initial calls) :
    Runs.Throughout SequenceHost.apply (fun host => SoundAnswers host.answers) .initial calls := by
  have hsound := h.invariant SequenceHost.Sound.apply SequenceHost.initial_sound
  exact hsound.mono fun _ hs => hs.answers

def restartedCalls : List SequenceCall :=
  [.opening ⟨0, 0⟩ true, .reserveController 1 1 0 true, .reserveChild false, .opening ⟨0, 0⟩ true,
    .reserveController 1 1 0 true, .reserveChild true]

theorem restarted_reservations_sound :
    Runs.Along SequenceHost.apply SequenceHost.Allowed .initial restartedCalls ∧
      Runs.Throughout SequenceHost.apply (fun host => SoundAnswers host.answers) .initial
        restartedCalls := by
  have hallowed : Runs.Along SequenceHost.apply SequenceHost.Allowed .initial restartedCalls := by
    decide +kernel
  exact ⟨hallowed, sequence_reservations_sound hallowed⟩

def retriedCalls : List SequenceCall :=
  [.opening ⟨0, 0⟩ true, .reserveController 1 1 0 false, .reserveController 1 1 0 false,
    .opening ⟨0, 0⟩ true, .reserveChild true]

/-- After the restart a child of its own gets the value the retry has returned. -/
theorem retried_reservation_given_twice :
    ¬SoundAnswers (retriedCalls.foldl SequenceHost.apply .initial).answers := by
  intro h
  have hanswers : (retriedCalls.foldl SequenceHost.apply .initial).answers =
      [⟨.controller (reservationKey 1 1 0), ⟨0, 1⟩⟩, ⟨.child, ⟨0, 1⟩⟩] := by decide +kernel
  rw [hanswers] at h
  have hne := List.rel_of_pairwise_cons h.unique (List.mem_singleton_self _)
  apply hne _ rfl
  rintro ⟨key, -, hchild⟩
  cases hchild

/-! The sequence: a revision that was not in the table is above everything before it. -/

def SequenceState.Bounded (state : SequenceState) : Prop :=
  ∀ key value, state.controller.get key = some value → value.order ≤ state.value.order

theorem SequenceState.Bounded.insert {state : SequenceState} (h : state.Bounded)
    {value : SequenceValue} (hbump : state.bump = some value) (key : String) :
    SequenceState.Bounded ⟨value, state.controller.insert key value⟩ := by
  intro key' value' hget
  rw [OrdMap.get_insert] at hget
  by_cases hkey : key' = key
  · rw [if_pos hkey] at hget
    rw [Option.some.inj hget]
  · rw [if_neg hkey] at hget
    exact (h key' value' hget).trans (bump_lt hbump).le

namespace SequenceHost
variable {host host' : SequenceHost}

def Bounded (host : SequenceHost) : Prop :=
  ∀ state, (host.running = some state ∨ host.file = some state) → state.Bounded

theorem initial_bounded : initial.Bounded := by
  intro state hstate
  simp [initial] at hstate

theorem Bounded.persistLocked (h : host.Bounded) {state : SequenceState} (hstate : state.Bounded)
    (stored : Bool) : (persistLocked state stored host).2.Bounded := by
  intro state' hstate'
  cases stored with
  | true =>
    rcases hstate' with hstate' | hstate' <;>
    · obtain rfl := Option.some.inj hstate'
      exact hstate
  | false =>
    rcases hstate' with hstate' | hstate'
    · obtain rfl := Option.some.inj hstate'
      exact hstate
    · exact h state' (.inr hstate')

theorem reserveController_cases {semanticEpoch semanticRevision : UInt64}
    {child : UInt32} {stored : Bool} {result : Except SequenceError SequenceValue}
    (h : reserveController semanticEpoch semanticRevision child stored host = (result, host')) :
    (host' = host ∧ ∀ value, result = .ok value → ∃ state, host.running = some state ∧
      state.controller.get (reservationKey semanticEpoch semanticRevision child) = some value) ∨
    ∃ state value, host.running = some state ∧
      state.controller.get (reservationKey semanticEpoch semanticRevision child) = none ∧
      state.bump = some value ∧ host' = (persistLocked ⟨value, state.controller.insert
        (reservationKey semanticEpoch semanticRevision child) value⟩ stored host).2 ∧
      ∀ value', result = .ok value' → value' = value := by
  unfold reserveController at h
  cases hrunning : host.running with
  | none =>
    rw [hrunning] at h
    cases h
    exact .inl ⟨rfl, by simp⟩
  | some state =>
    rw [hrunning] at h
    dsimp only at h
    cases hget : state.controller.get (reservationKey semanticEpoch semanticRevision child) with
    | some value =>
      rw [hget] at h
      cases h
      exact .inl ⟨rfl, fun value' hv => ⟨state, rfl, by rw [hget, Except.ok.inj hv]⟩⟩
    | none =>
      rw [hget] at h
      dsimp only at h
      cases hbump : state.bump with
      | none =>
        rw [hbump] at h
        cases h
        exact .inl ⟨rfl, by simp⟩
      | some value =>
        rw [hbump] at h
        right
        refine ⟨state, value, rfl, hget, hbump, ?_⟩
        cases stored with
        | true =>
          cases h
          exact ⟨rfl, fun value' hv => (Except.ok.inj hv).symm⟩
        | false =>
          cases h
          exact ⟨rfl, by simp⟩

theorem persistLocked_running (state : SequenceState) (stored : Bool) (host : SequenceHost) :
    (persistLocked state stored host).2.running = some state := by
  cases stored <;> rfl

theorem bounded_answer {request : Request} {answered : Except SequenceError SequenceValue × SequenceHost}
    (h : answered.2.Bounded) : (answer request answered).Bounded := by
  obtain ⟨result, host⟩ := answered
  cases result with
  | ok value => exact h
  | error e => exact h

theorem Bounded.apply (h : host.Bounded) (call : SequenceCall) : (host.apply call).Bounded := by
  cases call with
  | opening initial stored =>
    have hstate : (host.file.getD ⟨initial, .empty⟩).Bounded := by
      cases hfile : host.file with
      | none =>
        intro key value hget
        simp at hget
      | some state => exact h state (.inr hfile)
    cases stored with
    | true => exact h.persistLocked hstate true
    | false =>
      intro state hrunning
      rcases hrunning with hrunning | hfile
      · cases hrunning
      · exact h state (.inr hfile)
  | advanceController value stored =>
    unfold SequenceHost.apply SequenceHost.advanceController
    cases hrunning : host.running with
    | none => exact h
    | some state =>
      dsimp only
      by_cases hlt : state.value.order < value.order
      · rw [if_pos hlt]
        apply h.persistLocked
        intro key value' hget
        exact (h state (.inl hrunning) key value' hget).trans hlt.le
      · rw [if_neg hlt]
        exact h
  | reserveController epoch revision child stored =>
    apply bounded_answer
    obtain ⟨result, host', heq⟩ : ∃ result host',
        SequenceHost.reserveController epoch revision child stored host = (result, host') :=
      ⟨_, _, rfl⟩
    rw [heq]
    obtain ⟨rfl, -⟩ | ⟨state, value, hrunning, -, hbump, rfl, -⟩ := reserveController_cases heq
    · exact h
    · exact h.persistLocked ((h state (.inl hrunning)).insert hbump _) stored
  | reserveChild stored =>
    apply bounded_answer
    unfold SequenceHost.reserveChild
    cases hrunning : host.running with
    | none => exact h
    | some state =>
      dsimp only
      cases hbump : state.bump with
      | none => exact h
      | some value =>
        have hstate : SequenceState.Bounded { state with value := value } := by
          intro key value' hget
          exact (h state (.inl hrunning) key value' hget).trans (SequenceState.bump_lt hbump).le
        have hpersist := h.persistLocked hstate stored
        cases stored with
        | true => exact hpersist
        | false => exact hpersist

theorem bounded_run (calls : List SequenceCall) : (calls.foldl apply initial).Bounded := by
  induction calls using List.reverseRecOn with
  | nil => exact initial_bounded
  | append_singleton calls call ih =>
    rw [List.foldl_concat]
    exact ih.apply call

end SequenceHost

theorem SequenceValue.order_injective : Function.Injective SequenceValue.order := by
  intro a b h
  obtain ⟨hepoch, hrevision⟩ := Prod.mk.inj (toLex.injective h)
  exact SequenceValue.ext (UInt64.toNat_inj.mp hepoch) (UInt64.toNat_inj.mp hrevision)

theorem reservationKey_toList (e r : UInt64) (c : UInt32) : (reservationKey e r c).toList
    = (Nat.toDigits 10 e.toNat ++ ':' :: Nat.toDigits 10 r.toNat)
      ++ ':' :: Nat.toDigits 10 c.toNat := by
  simp [reservationKey]

theorem reservationKey_inj {e e' r r' : UInt64} {c c' : UInt32}
    (h : reservationKey e r c = reservationKey e' r' c') : e = e' ∧ r = r' := by
  have hlist := congrArg String.toList h
  rw [reservationKey_toList, reservationKey_toList] at hlist
  obtain ⟨hfront, -⟩ := append_cons_inj_last (notMem_toDigits (by decide) c.toNat)
    (notMem_toDigits (by decide) c'.toNat) hlist
  obtain ⟨hepoch, hrevision⟩ := append_cons_inj_last
    (notMem_toDigits (by decide) r.toNat) (notMem_toDigits (by decide) r'.toNat) hfront
  exact ⟨UInt64.toNat_inj.mp (toDigits_inj hepoch),
    UInt64.toNat_inj.mp (toDigits_inj hrevision)⟩

namespace SequenceState
variable {state later : SequenceState} {desired : SequenceValue}

/-- The table has the value for an operation of the desired state of this epoch and revision. -/
def Reserved (state : SequenceState) (desired value : SequenceValue) : Prop :=
  ∃ child, state.controller.get (reservationKey desired.epoch desired.revision child) = some value

/-- Reservations were made in the order of the desired states. -/
def Ascending (state : SequenceState) : Prop :=
  ∀ a b v w, state.Reserved a v → state.Reserved b w → a.order < b.order → v.order < w.order

/-- What reserving for `desired` makes of a table whose reservations are for nothing later. -/
structure Reserving (desired : SequenceValue) (state later : SequenceState) : Prop where
  extended : later.Extends state
  bounded : later.Bounded
  ascending : later.Ascending
  own : ∀ a v, later.Reserved a v → state.Reserved a v ∨ a = desired

theorem Reserving.refl (hbounded : state.Bounded) (hascending : state.Ascending) :
    Reserving desired state state :=
  ⟨.refl state, hbounded, hascending, fun _ _ h => .inl h⟩

theorem Reserving.insert (h : Reserving desired state later)
    (hlast : ∀ a v, state.Reserved a v → a.order ≤ desired.order) {value : SequenceValue}
    (hbump : later.bump = some value) {child : UInt32}
    (hnone : later.controller.get (reservationKey desired.epoch desired.revision child) = none) :
    Reserving desired state ⟨value, later.controller.insert
      (reservationKey desired.epoch desired.revision child) value⟩ := by
  have hcases : ∀ {a v}, Reserved ⟨value, later.controller.insert
      (reservationKey desired.epoch desired.revision child) value⟩ a v →
      a = desired ∧ v = value ∨ later.Reserved a v := by
    rintro a v ⟨child', hget⟩
    rw [OrdMap.get_insert] at hget
    split_ifs at hget with hkey
    · obtain ⟨he, hr⟩ := reservationKey_inj hkey
      exact .inl ⟨SequenceValue.ext he hr, (Option.some.inj hget).symm⟩
    · exact .inr ⟨child', hget⟩
  have hle : ∀ {a v}, later.Reserved a v → a.order ≤ desired.order := by
    intro a v ha
    rcases h.own a v ha with ha | rfl
    · exact hlast a v ha
    · exact le_refl _
  refine ⟨⟨h.extended.value.trans (bump_lt hbump).le, ?_⟩, h.bounded.insert hbump _, ?_, ?_⟩
  · intro key v hget
    exact OrdMap.get_insert_of_get_eq_none value hnone (h.extended.controller key v hget)
  · intro a b v w ha hb hlt
    rcases hcases ha with ⟨rfl, rfl⟩ | hold
    · rcases hcases hb with ⟨rfl, rfl⟩ | hb
      · exact absurd hlt (lt_irrefl _)
      · exact absurd hlt (hle hb).not_gt
    · rcases hcases hb with ⟨rfl, rfl⟩ | hb
      · obtain ⟨child', hget⟩ := hold
        exact (h.bounded _ v hget).trans_lt (bump_lt hbump)
      · exact h.ascending a b v w hold hb hlt
  · intro a v ha
    rcases hcases ha with ⟨rfl, -⟩ | ha
    · exact .inr rfl
    · exact h.own a v ha

end SequenceState

end Ferrocrate.Agent
