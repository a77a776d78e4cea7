import Ferrocrate.Lib.Sha256
import Ferrocrate.Witness.Journal.Run

/-! Appends and epoch advances of several threads. An append loads the epoch of the handle before
it takes the coordinator lock, so an advance can come between the two. -/
namespace Ferrocrate.Witness
open Lib Lib.Program Journal

inductive EpochAppend where
  | appendReceived (id : OperationId) (generation : UInt64) (recipe : RecoveryRecipe)
      (record : WitnessRecord)
  | appendDecision (id : OperationId) (record : WitnessRecord)
  | deny (id : OperationId) (decision denied : WitnessRecord)
  | complete (intent : DurableIntent) (record : WitnessRecord)
  | recordOutcomeUnknown (id : OperationId) (record : WitnessRecord)
  | completeRecovery (id : OperationId) (record : WitnessRecord)

def EpochAppend.locked (sha256 : Hasher) (epoch : UInt64) : EpochAppend → Journaled Unit
  | appendReceived id generation recipe record =>
    appendReceivedAt sha256 epoch id generation recipe record
  | appendDecision id record => do
    let _ ← appendDecisionAt sha256 epoch id record
    pure ()
  | deny id decision denied => denyAt sha256 epoch id decision denied
  | complete intent record => completeAt sha256 epoch intent record
  | recordOutcomeUnknown id record => recordOutcomeUnknownAt sha256 epoch id record
  | completeRecovery id record => completeRecoveryAt sha256 epoch id record

inductive ThreadPhase where
  | idle
  | loaded (call : EpochAppend) (epoch : UInt64)
  | appending (call : EpochAppend) (epoch : UInt64)
  | waiting (expected : UInt64)
  | advancing (expected : UInt64)
  | storing (next : UInt64)
  | releasing

def ThreadPhase.holds : ThreadPhase → Bool
  | idle | loaded _ _ | waiting _ => false
  | appending _ _ | advancing _ | storing _ | releasing => true

structure Race where
  journal : WitnessJournal
  holder : Option Nat
  phase : Nat → ThreadPhase

inductive Turn where
  | append (thread : Nat) (call : EpochAppend)
  | advanceEpoch (thread : Nat) (expected : UInt64)
  | step (thread : Nat)

namespace Race
variable (sha256 : Hasher)

def move (m : Race) (thread : Nat) (phase : ThreadPhase) : Race :=
  { m with phase := Function.update m.phase thread phase }

def act (m : Race) (thread : Nat) : Race :=
  match m.phase thread with
  | .idle => m
  | .loaded call epoch =>
    if m.holder.isSome then m
    else { m with holder := some thread }.move thread (.appending call epoch)
  | .appending call epoch =>
    { m with journal := (call.locked sha256 epoch).after m.journal }.move thread .releasing
  | .waiting expected =>
    if m.holder.isSome then m
    else { m with holder := some thread }.move thread (.advancing expected)
  | .advancing expected =>
    if m.journal.epoch ≠ expected then m.move thread .releasing
    else match checkedAdd expected 1 with
      | none => m.move thread .releasing
      | some next => { m with journal := { m.journal with store := { m.journal.store with
          metadata := { m.journal.store.metadata with epoch := next } } } }.move thread (.storing next)
  | .storing next => { m with journal := { m.journal with epoch := next } }.move thread .releasing
  | .releasing => { m with holder := none }.move thread .idle

def next (m : Race) : Turn → Race
  | .append thread call =>
    match m.phase thread with
    | .idle => m.move thread (.loaded call m.journal.epoch)
    | _ => m
  | .advanceEpoch thread expected =>
    match m.phase thread with
    | .idle => m.move thread (.waiting expected)
    | _ => m
  | .step thread => m.act sha256 thread

def run (turns : List Turn) (m : Race) : Race := turns.foldl (next sha256) m

def initial (config : JournalConfig) (faults : Finset FaultPoint) : Race :=
  ⟨.create config faults, none, fun _ => .idle⟩

def timely (m : Race) : Turn → Bool
  | .step thread =>
    match m.phase thread with
    | .loaded _ epoch => m.holder.isSome ∨ epoch = m.journal.epoch
    | _ => true
  | _ => true

def timelyRun : List Turn → Race → Bool
  | [], _ => true
  | e :: es, m => m.timely e && timelyRun es (m.next sha256 e)

def epochs (j : WitnessJournal) : List UInt64 :=
  match Journal.records j with
  | .error _ => []
  | .ok stored => stored.filterMap fun bytes =>
    match decodeRecord bytes with
    | .error _ => none
    | .ok d => some d.record.epoch

def addsCurrent (before after : WitnessJournal) : Bool :=
  ((epochs after).drop (epochs before).length).all (after.store.metadata.epoch ≤ ·)

def currentRun : List Turn → Race → Bool
  | [], _ => true
  | e :: es, m => addsCurrent m.journal (m.next sha256 e).journal
      && currentRun es (m.next sha256 e)

end Race

def WitnessJournal.settled (j : WitnessJournal) : WitnessJournal :=
  { j with epoch := j.store.metadata.epoch }

structure Race.Ordered (sha256 : Hasher) (config : JournalConfig) (l : Ledger) (m : Race) :
    Prop where
  refines : Refines sha256 config l m.journal.settled
  sorted : (l.entries.map WitnessRecord.epoch).Pairwise (· ≤ ·)
  bounded : ∀ r ∈ l.entries, r.epoch ≤ l.epoch
  holds : ∀ thread, (m.phase thread).holds = true → m.holder = some thread
  appending : ∀ thread call epoch, m.phase thread = .appending call epoch →
    epoch = m.journal.store.metadata.epoch
  storing : ∀ thread next, m.phase thread = .storing next → next = m.journal.store.metadata.epoch
  atomic : m.journal.epoch = m.journal.store.metadata.epoch ∨ ∃ thread next,
    m.phase thread = .storing next

section Race
variable {sha256 : Hasher} {config : JournalConfig} {l : Ledger} {m : Race}
  {j : WitnessJournal}

theorem Race.epochs_eq (h : Refines sha256 config l j.settled) :
    epochs j = l.entries.map WitnessRecord.epoch := by
  have hrecords : Journal.records j = .ok (l.entries.map (recordLayout config.journalId)) :=
    h.records_eq
  have hvalid := h.represents.wellFormed.valid
  rw [epochs, hrecords]
  clear hrecords h
  generalize l.entries = entries at hvalid ⊢
  induction entries with
  | nil => rfl
  | cons r rs ih =>
    have hr : decodeRecord (recordLayout config.journalId r) = _ :=
      decodeRecord_recordLayout (hvalid r List.mem_cons_self)
    have hrest := ih fun x hx => hvalid x (List.mem_cons_of_mem _ hx)
    simp only [List.map_cons, List.filterMap_cons, hr] at hrest ⊢
    rw [hrest]
    rfl

theorem Race.Ordered.unique (h : m.Ordered sha256 config l) {t t' : Nat}
    (ht : (m.phase t).holds = true) (ht' : (m.phase t').holds = true) : t = t' :=
  Option.some.inj ((h.holds t ht).symm.trans (h.holds t' ht'))

variable {thread : Nat}

theorem Race.Ordered.rephase (h : m.Ordered sha256 config l) {phase : ThreadPhase}
    {holder : Option Nat} (hholds : phase.holds = true → holder = some thread)
    (hothers : ∀ t, t ≠ thread → (m.phase t).holds = true → holder = some t)
    (happending : ∀ call epoch, phase = .appending call epoch →
      epoch = m.journal.store.metadata.epoch)
    (hafter : ∀ next, phase ≠ .storing next) (hbefore : ∀ next, m.phase thread ≠ .storing next) :
    ({ m with holder := holder }.move thread phase).Ordered sha256 config l := by
  refine ⟨h.refines, h.sorted, h.bounded, ?_, ?_, ?_, ?_⟩
  · intro t ht
    by_cases heq : t = thread
    · subst heq
      simp only [Race.move, Function.update_self] at ht
      exact hholds ht
    · simp only [Race.move, Function.update_of_ne heq] at ht
      exact hothers t heq ht
  · intro t call epoch ht
    by_cases heq : t = thread
    · subst heq
      simp only [Race.move, Function.update_self] at ht
      exact happending call epoch ht
    · simp only [Race.move, Function.update_of_ne heq] at ht
      exact h.appending t call epoch ht
  · intro t next ht
    by_cases heq : t = thread
    · subst heq
      simp only [Race.move, Function.update_self] at ht
      exact absurd ht (hafter next)
    · simp only [Race.move, Function.update_of_ne heq] at ht
      exact h.storing t next ht
  · refine h.atomic.imp_right ?_
    rintro ⟨t, next, ht⟩
    have hne : t ≠ thread := fun heq => hbefore next (heq ▸ ht)
    exact ⟨t, next, by simpa only [Race.move, Function.update_of_ne hne] using ht⟩

theorem Race.Ordered.epoch_eq (h : m.Ordered sha256 config l)
    (hfree : ∀ t next, m.phase t ≠ .storing next) :
    m.journal.epoch = m.journal.store.metadata.epoch := by
  obtain heq | ⟨t, next, ht⟩ := h.atomic
  · exact heq
  · exact absurd ht (hfree t next)

theorem EpochAppend.locked_advanced (call : EpochAppend) (epoch : UInt64)
    (h : Refines sha256 config l j) :
    ∃ l' new, Refines sha256 config l' ((call.locked sha256 epoch).after j) ∧
      l'.entries = l.entries ++ new ∧ l'.epoch = l.epoch ∧ ∀ r ∈ new, r.epoch = epoch := by
  have hstep : ∀ {α : Type} {n : Journaled α} {events : List LedgerEvent},
      wp n (fun _ => Advanced sha256 config epoch events l)
        (fun _ => Advanced sha256 config epoch events l) j →
      (call.locked sha256 epoch).after j = n.after j →
      ∃ l' new, Refines sha256 config l' ((call.locked sha256 epoch).after j) ∧
        l'.entries = l.entries ++ new ∧ l'.epoch = l.epoch ∧ ∀ r ∈ new, r.epoch = epoch := by
    intro α n events hn hafter
    rw [hafter]
    obtain hkept | ⟨e, -, l', hs, hl'⟩ := after_of_wp hn
    · exact ⟨l, [], hkept, by simp, rfl, by simp⟩
    · obtain ⟨new, hnew, hepoch⟩ := hs.entries_append
      exact ⟨l', new, hl', hnew, hs.epoch_eq, hepoch⟩
  cases call with
  | appendReceived id generation recipe record =>
    exact hstep (appendReceivedAt_advanced epoch id generation recipe record h) rfl
  | appendDecision id record =>
    exact hstep (appendDecisionAt_advanced epoch id record h) (Operation.after_discard _ j)
  | deny id decision denied => exact hstep (denyAt_advanced epoch id decision denied h) rfl
  | complete intent record => exact hstep (completeAt_advanced epoch intent record h) rfl
  | recordOutcomeUnknown id record =>
    exact hstep (recordOutcomeUnknownAt_advanced epoch id record h) rfl
  | completeRecovery id record => exact hstep (completeRecoveryAt_advanced epoch id record h) rfl

theorem Refines.settled_eq (h : Refines sha256 config l j) : j.settled = j := by
  rw [WitnessJournal.settled, h.represents.epoch, ← h.epoch]

def Race.Keeps (sha256 : Hasher) (config : JournalConfig) (l : Ledger) (m : Race) : Prop :=
  ∃ l' new, m.Ordered sha256 config l' ∧ l'.entries = l.entries ++ new ∧
    ∀ r ∈ new, l'.epoch ≤ r.epoch

section
variable (h : m.Ordered sha256 config l)
include h

theorem Race.Ordered.keeps : m.Keeps sha256 config l :=
  ⟨l, [], h, by simp, by simp⟩

theorem Race.Ordered.append {call : EpochAppend}
    {epoch : UInt64} (ht : m.phase thread = .appending call epoch) :
    ({ m with journal := (call.locked sha256 epoch).after m.journal }.move thread
      .releasing).Keeps sha256 config l := by
  have hself : (m.phase thread).holds = true := by rw [ht]; rfl
  have hstill : ∀ t next, m.phase t ≠ .storing next := by
    intro t next hs
    obtain rfl := h.unique hself (by rw [hs]; rfl)
    rw [ht] at hs
    cases hs
  have hsettled : m.journal.settled = m.journal := by
    rw [WitnessJournal.settled, ← h.epoch_eq hstill]
  have hrefines := h.refines
  rw [hsettled] at hrefines
  obtain ⟨l', new, hl', hnew, hepoch, hcurrent⟩ := call.locked_advanced epoch hrefines
  have hloaded : epoch = l.epoch := (h.appending thread call epoch ht).trans h.refines.represents.epoch
  have hlast : ∀ r ∈ new, r.epoch = l'.epoch := fun r hr => by rw [hcurrent r hr, hloaded, hepoch]
  have hmeta := hl'.represents.epoch
  refine ⟨l', new, ⟨?_, ?_, ?_, ?_, ?_, ?_, ?_⟩, hnew, fun r hr => by
    rw [hlast r hr]; exact UInt64.le_refl _⟩
  · show Refines sha256 config l' ((call.locked sha256 epoch).after m.journal).settled
    rw [hl'.settled_eq]
    exact hl'
  · rw [hnew, List.map_append, List.pairwise_append]
    refine ⟨h.sorted, ?_, ?_⟩
    · have hsame : new.map WitnessRecord.epoch = List.replicate new.length l'.epoch :=
        List.eq_replicate_iff.mpr ⟨List.length_map _, fun e he => by
          obtain ⟨r, hr, rfl⟩ := List.mem_map.mp he
          exact hlast r hr⟩
      rw [hsame, List.pairwise_replicate]
      exact .inr (UInt64.le_refl _)
    · intro a ha b hb
      obtain ⟨r, hr, rfl⟩ := List.mem_map.mp ha
      obtain ⟨r', hr', rfl⟩ := List.mem_map.mp hb
      rw [hlast r' hr', hepoch]
      exact h.bounded r hr
  · intro r hr
    rw [hnew, List.mem_append] at hr
    obtain hr | hr := hr
    · rw [hepoch]
      exact h.bounded r hr
    · rw [hlast r hr]
      exact UInt64.le_refl _
  · intro t hholds
    by_cases heq : t = thread
    · subst heq
      exact h.holds t hself
    · simp only [Race.move, Function.update_of_ne heq] at hholds
      exact h.holds t hholds
  · intro t c e hphase
    by_cases heq : t = thread
    · subst heq
      simp only [Race.move, Function.update_self] at hphase
      cases hphase
    · simp only [Race.move, Function.update_of_ne heq] at hphase
      exact absurd (h.unique (by rw [hphase]; rfl) hself) heq
  · intro t next hphase
    by_cases heq : t = thread
    · subst heq
      simp only [Race.move, Function.update_self] at hphase
      cases hphase
    · simp only [Race.move, Function.update_of_ne heq] at hphase
      exact absurd hphase (hstill t next)
  · exact .inl (hl'.epoch.trans hmeta.symm)

theorem Race.Ordered.rewrite {l' : Ledger} {phase : ThreadPhase} (hself : (m.phase thread).holds = true)
    (hrefines : Refines sha256 config l' j.settled) (hentries : l'.entries = l.entries)
    (hepoch : l.epoch ≤ l'.epoch) (happending : ∀ call epoch, phase ≠ .appending call epoch)
    (hstoring : ∀ next, phase = .storing next → next = j.store.metadata.epoch)
    (hatomic : j.epoch = j.store.metadata.epoch ∨ ∃ next, phase = .storing next) :
    ({ m with journal := j }.move thread phase).Ordered sha256 config l' := by
  have hothers : ∀ t, t ≠ thread → (m.phase t).holds = false := by
    intro t hne
    by_contra hholds
    rw [Bool.not_eq_false] at hholds
    exact hne (h.unique hholds hself)
  refine ⟨hrefines, by rw [hentries]; exact h.sorted, fun r hr => ?_, ?_, ?_, ?_, ?_⟩
  · rw [hentries] at hr
    exact UInt64.le_trans (h.bounded r hr) hepoch
  · intro t ht
    by_cases heq : t = thread
    · subst heq
      exact h.holds t hself
    · simp only [Race.move, Function.update_of_ne heq, hothers t heq] at ht
      cases ht
  · intro t call epoch ht
    by_cases heq : t = thread
    · subst heq
      simp only [Race.move, Function.update_self] at ht
      exact absurd ht (happending call epoch)
    · simp only [Race.move, Function.update_of_ne heq] at ht
      have hfree := hothers t heq
      rw [ht] at hfree
      cases hfree
  · intro t next ht
    by_cases heq : t = thread
    · subst heq
      simp only [Race.move, Function.update_self] at ht
      exact hstoring next ht
    · simp only [Race.move, Function.update_of_ne heq] at ht
      have hfree := hothers t heq
      rw [ht] at hfree
      cases hfree
  · refine hatomic.imp_right ?_
    rintro ⟨next, hnext⟩
    exact ⟨thread, next, by simp only [Race.move, Function.update_self, hnext]⟩

theorem Race.Ordered.act (thread : Nat)
    (ht : m.timely (.step thread) = true) : (m.act sha256 thread).Keeps sha256 config l := by
  have hlocked : ∀ {t}, m.holder.isSome = false → (m.phase t).holds = false := by
    intro t hfree
    by_contra hholds
    rw [Bool.not_eq_false] at hholds
    rw [h.holds t hholds] at hfree
    cases hfree
  have hstill : m.holder.isSome = false → ∀ t next, m.phase t ≠ .storing next := by
    intro hfree t next hs
    have hfree' : (m.phase t).holds = false := hlocked hfree
    rw [hs] at hfree'
    cases hfree'
  cases hphase : m.phase thread with
  | idle =>
    simp only [Race.act, hphase]
    exact h.keeps
  | loaded call epoch =>
    simp only [Race.act, hphase]
    cases hfree : m.holder.isSome with
    | true => exact h.keeps
    | false =>
      refine (h.rephase (fun _ => rfl) (fun t _ hholds => ?_) ?_ (fun _ hp => by cases hp) ?_).keeps
      · rw [hlocked hfree] at hholds
        cases hholds
      · rintro call' epoch' ⟨⟩
        rw [← h.epoch_eq (hstill hfree)]
        simpa [Race.timely, hphase, hfree] using ht
      · exact hstill hfree thread
  | appending call epoch =>
    simp only [Race.act, hphase]
    exact h.append hphase
  | waiting expected =>
    simp only [Race.act, hphase]
    cases hfree : m.holder.isSome with
    | true => exact h.keeps
    | false =>
      refine (h.rephase (fun _ => rfl) (fun t _ hholds => ?_) (fun _ _ hp => by cases hp) (fun _ hp => by cases hp)
        ?_).keeps
      · rw [hlocked hfree] at hholds
        cases hholds
      · exact hstill hfree thread
  | advancing expected =>
    have hself : (m.phase thread).holds = true := by rw [hphase]; rfl
    have hrelease : (m.move thread .releasing).Keeps sha256 config l := by
      refine (h.rephase (fun _ => h.holds thread hself) (fun t _ hholds => h.holds t hholds)
        (fun _ _ hp => by cases hp) (fun _ hp => by cases hp) ?_).keeps
      intro next hs
      rw [hphase] at hs
      cases hs
    simp only [Race.act, hphase]
    split
    · exact hrelease
    next hexpected =>
    split
    · exact hrelease
    next next hnext =>
    have hnostore : ∀ t next, m.phase t ≠ .storing next := by
      intro t next hs
      obtain rfl := h.unique hself (by rw [hs]; rfl)
      rw [hphase] at hs
      cases hs
    have hcurrent : m.journal.settled = m.journal := by
      rw [WitnessJournal.settled, ← h.epoch_eq hnostore]
    have hrefines := h.refines
    rw [hcurrent] at hrefines
    have hadvance := wp_advanceEpoch expected hrefines
    have hresult : advanceEpoch expected m.journal = (.ok next, { m.journal with
        store := { m.journal.store with metadata := { m.journal.store.metadata with epoch := next } }
        epoch := next }) := by
      refine bind_eq_ok.mpr ⟨_, _, rfl, bind_eq_ok.mpr ⟨(), m.journal, ?_, ?_⟩⟩
      · rw [rejectIf, if_neg hexpected]
        rfl
      · refine bind_eq_ok.mpr ⟨next, m.journal, by rw [hnext]; rfl, rfl⟩
    rw [wp, hresult] at hadvance
    refine ⟨{ l with epoch := next }, [], h.rewrite hself hadvance.2 rfl ?_ (fun _ _ hp => by cases hp)
      (fun n hn => (ThreadPhase.storing.inj hn).symm) (.inr ⟨next, rfl⟩), by simp, by simp⟩
    rw [UInt64.le_iff_toNat_le, toNat_checkedAdd hadvance.1]
    exact Nat.le_succ _
  | storing next =>
    simp only [Race.act, hphase]
    have hself : (m.phase thread).holds = true := by rw [hphase]; rfl
    refine ⟨l, [], h.rewrite hself h.refines rfl (UInt64.le_refl _) (fun _ _ hp => by cases hp)
      (fun _ hp => by cases hp) (.inl ?_), by simp, by simp⟩
    exact h.storing thread next hphase
  | releasing =>
    simp only [Race.act, hphase]
    have hself : (m.phase thread).holds = true := by rw [hphase]; rfl
    refine (h.rephase (fun hp => by cases hp) (fun t hne hholds => absurd (h.unique hholds hself) hne)
      (fun _ _ hp => by cases hp) (fun _ hp => by cases hp) ?_).keeps
    intro next hs
    rw [hphase] at hs
    cases hs

theorem Race.Ordered.next (e : Turn) (he : m.timely e = true) :
    (m.next sha256 e).Keeps sha256 config l := by
  have hstart : ∀ thread phase, m.phase thread = .idle → phase.holds = false →
      (m.move thread phase).Keeps sha256 config l := by
    intro thread phase hidle hphase
    refine (h.rephase (fun hp => ?_) (fun t _ hholds => h.holds t hholds) ?_ ?_ ?_).keeps
    · rw [hphase] at hp
      cases hp
    · rintro call epoch rfl
      cases hphase
    · rintro next rfl
      cases hphase
    · intro next hs
      rw [hidle] at hs
      cases hs
  cases e with
  | append thread call =>
    simp only [Race.next]
    split
    · next hidle => exact hstart thread _ hidle rfl
    · exact h.keeps
  | advanceEpoch thread expected =>
    simp only [Race.next]
    split
    · next hidle => exact hstart thread _ hidle rfl
    · exact h.keeps
  | step thread => exact h.act thread he

theorem Race.Ordered.addsCurrent {l' : Ledger} {m' : Race} {new : List WitnessRecord} (h' : m'.Ordered sha256 config l')
    (hnew : l'.entries = l.entries ++ new) (hcurrent : ∀ r ∈ new, l'.epoch ≤ r.epoch) :
    addsCurrent m.journal m'.journal = true := by
  have hepoch : m'.journal.store.metadata.epoch = l'.epoch := h'.refines.represents.epoch
  rw [Race.addsCurrent, epochs_eq h.refines, epochs_eq h'.refines, hnew, List.map_append,
    List.drop_left, hepoch, List.all_map, List.all_eq_true]
  exact fun r hr => decide_eq_true (hcurrent r hr)

theorem Race.Ordered.run (turns : List Turn)
    (ht : timelyRun sha256 turns m = true) :
    (∃ l', (m.run sha256 turns).Ordered sha256 config l') ∧ currentRun sha256 turns m = true := by
  induction turns generalizing m l with
  | nil => exact ⟨⟨l, h⟩, rfl⟩
  | cons e es ih =>
    rw [timelyRun, Bool.and_eq_true] at ht
    obtain ⟨l', new, h', hnew, hcurrent⟩ := h.next e ht.1
    obtain ⟨hlast, hrest⟩ := ih h' ht.2
    rw [currentRun, hrest, h.addsCurrent h' hnew hcurrent]
    exact ⟨hlast, rfl⟩

end

theorem Race.initial_ordered (sha256 : Hasher) (config : JournalConfig)
    (faults : Finset FaultPoint) :
    (Race.initial config faults).Ordered sha256 config .empty :=
  ⟨create_refines sha256 config faults, List.Pairwise.nil, fun _ hr => (nomatch hr),
    fun _ ht => (nomatch ht), fun _ _ _ ht => (nomatch ht), fun _ _ ht => (nomatch ht), .inl rfl⟩

end Race

/-- In every run in which no epoch advance comes between the load and the lock of an append,
the epochs of the records are in order, and no record is below the stored epoch when it is
committed. -/
theorem run_epochs_ordered (sha256 : Hasher) (config : JournalConfig)
    (faults : Finset FaultPoint) (turns : List Turn)
    (ht : Race.timelyRun sha256 turns (.initial config faults) = true) :
    (Race.epochs (Race.run sha256 turns (.initial config faults)).journal).Pairwise (· ≤ ·) ∧
      Race.currentRun sha256 turns (.initial config faults) = true := by
  obtain ⟨⟨l, h⟩, hcurrent⟩ := (Race.initial_ordered sha256 config faults).run turns ht
  rw [Race.epochs_eq h.refines]
  exact ⟨h.sorted, hcurrent⟩

def receives (thread : Nat) (id event : UInt8) : List Turn :=
  [.append thread (.appendReceived (.fill 16 id) 1 plainRecipe
    (plainRecord (.fill 16 id) (.fill 16 event) .requestReceived)),
    .step thread, .step thread, .step thread]

def advances (thread : Nat) (expected : UInt64) : List Turn :=
  [.advanceEpoch thread expected, .step thread, .step thread, .step thread, .step thread]

def raced (turns : List Turn) : Race :=
  Race.run Sha256.sha256 turns (.initial (.new (.zero 16) .required) ∅)

theorem run_epochs_ordered_one_after_the_other :
    Race.epochs (raced (receives 0 7 1 ++ advances 1 1 ++ receives 2 8 2)).journal = [1, 2] ∧
      (Race.epochs (raced (receives 0 7 1 ++ advances 1 1 ++ receives 2 8 2)).journal).Pairwise
        (· ≤ ·) := by
  have hrun : Race.epochs (raced (receives 0 7 1 ++ advances 1 1 ++ receives 2 8 2)).journal
      = [1, 2] ∧ Race.timelyRun Sha256.sha256 (receives 0 7 1 ++ advances 1 1 ++ receives 2 8 2)
        (.initial (.new (.zero 16) .required) ∅) = true := by
    decide +kernel
  exact ⟨hrun.1, (run_epochs_ordered _ _ _ _ hrun.2).1⟩

def overtaken : List Turn :=
  (receives 0 7 1).take 1 ++ advances 1 1 ++ receives 2 8 2 ++ (receives 0 7 1).drop 1

theorem advance_overtakes_append :
    Race.epochs (raced overtaken).journal = [2, 1] ∧
      Race.currentRun Sha256.sha256 overtaken (.initial (.new (.zero 16) .required) ∅) = false := by
  decide +kernel

end Ferrocrate.Witness
