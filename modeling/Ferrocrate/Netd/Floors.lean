import Ferrocrate.Netd.Rejection

/-! Revision floors over whole runs. A floor once stored for an acknowledged frame stays, in memory
and on disk, until a refused frame rolls its scope back. -/
namespace Ferrocrate.Netd
open Lib
open Lib.Program
open Witness (Id)
variable {κ γ : Type} {sv : Services κ γ} {scope : String} {v : Version}

def FloorAtLeast (scope : String) (v : Version) (floors : OrdMap String RevisionFloor) : Prop :=
  ∃ floor, floors.get scope = some floor ∧ v ≤ floor.version

def FileAtLeast (scope : String) (v : Version) (file : Option JournalFrame) : Prop :=
  ∃ frame, file = some frame ∧ FloorAtLeast scope v frame.state.revisionFloors

def StoredAtLeast (scope : String) (v : Version) : List Call → Prop
  | [] => True
  | call :: calls => StoredAtLeast scope v calls ∧ match call with
    | .stored frame =>
      FloorAtLeast scope v frame.state.revisionFloors ∨ .rollback scope ∈ calls
    | _ => True

def FloorHeld (scope : String) (v : Version) (h : Host sv) : Prop :=
  (FloorAtLeast scope v h.floors ∧ FileAtLeast scope v h.file) ∧ StoredAtLeast scope v h.calls

def FloorHeldOrRolledBack (scope : String) (v : Version) (h : Host sv) : Prop :=
  ((FloorAtLeast scope v h.floors ∧ FileAtLeast scope v h.file) ∨ .rollback scope ∈ h.calls)
    ∧ StoredAtLeast scope v h.calls

theorem stable_floorHeld : Stable (FloorHeld scope v : Host sv → Prop) where
  owned _ h := h
  grants _ h := h
  performed _ _ h := ⟨h.1, h.2, trivial⟩
  began _ h := ⟨h.1, h.2, trivial⟩
  applying h := ⟨h.1, h.2, trivial⟩
  stored _ _ h := ⟨⟨h.1.1, _, rfl, h.1.1⟩, h.2, .inl h.1.1⟩
  counting _ h := h
  stores _ h := h

theorem stable_floorHeldOrRolledBack : Stable (FloorHeldOrRolledBack scope v : Host sv → Prop) where
  owned _ h := h
  grants _ h := h
  performed _ _ h := ⟨h.1.imp_right (List.mem_cons_of_mem _), h.2, trivial⟩
  began _ h := ⟨h.1.imp_right (List.mem_cons_of_mem _), h.2, trivial⟩
  applying h := ⟨h.1.imp_right (List.mem_cons_of_mem _), h.2, trivial⟩
  stored _ _ h := ⟨h.1.imp (fun h => ⟨h.1, _, rfl, h.1⟩) (List.mem_cons_of_mem _), h.2,
    h.1.imp And.left id⟩
  counting _ h := h
  stores _ h := h

theorem FloorAtLeast.raised {p : Policy sv.pk} (h : FloorAtLeast scope v p.revisions)
    {scope' : String} {floor : RevisionFloor} (hpasses : p.Passes scope' floor) :
    FloorAtLeast scope v (p.raised scope' floor).revisions := by
  obtain ⟨old, hold, hle⟩ := h
  by_cases heq : scope = scope'
  · subst heq
    exact ⟨floor, OrdMap.get_insert_self _ _ _, hle.trans (hpasses.version_le hold)⟩
  · refine ⟨old, ?_, hle⟩
    rw [Policy.raised, OrdMap.get_insert, if_neg heq, hold]

theorem FloorAtLeast.rollback {p : Policy sv.pk} (h : FloorAtLeast scope v p.revisions)
    {scope' : String} (hne : scope ≠ scope') (epoch revision : UInt64) :
    FloorAtLeast scope v (p.rollback scope' epoch revision).revisions := by
  obtain ⟨old, hold, hle⟩ := h
  rw [Policy.rollback]
  split_ifs with hmatches
  · refine ⟨old, ?_, hle⟩
    rw [OrdMap.get_erase, if_neg hne, hold]
  · exact ⟨old, hold, hle⟩

theorem guarded_floorHeld :
    Guarded (FloorHeld scope v : Host sv → Prop) (FloorHeldOrRolledBack scope v) where
  strong := stable_floorHeld
  weak := stable_floorHeldOrRolledBack
  weaken h := ⟨.inl h.1, h.2⟩
  raised _ _ hpasses h := ⟨⟨h.1.1.raised hpasses, h.1.2⟩, h.2⟩
  rolledBack scope' epoch revision h := by
    refine ⟨?_, h.2, trivial⟩
    by_cases heq : scope = scope'
    · subst heq
      exact .inr List.mem_cons_self
    · exact h.1.imp (fun h => ⟨h.1.rollback heq epoch revision, h.2⟩) (List.mem_cons_of_mem _)

def FrameContent.target : FrameContent → Option (String × Version)
  | .desired envelope => some (desiredScope, envelope.floor.version)
  | .granted carrier => some (carrier.envelope.request.overlayId, carrier.envelope.floor.version)
  | .bulk | .ungranted _ | .unreadable => none

def FloorRaised (scope : String) (v : Version) (h : Host sv) : Prop :=
  FloorAtLeast scope v h.floors ∧ h.server.journal = true ∧ h.calls = []

def Declines (r : NetdResponse) (_ : Host sv) : Prop := r.acknowledges = false

variable {h : Host sv}

theorem wp_persist_raised {ε : Type} {E : ε → Host sv → Prop}
    (hs : FloorRaised scope v h) :
    wp (persist : Program ε (Host sv) Bool) (fun ok h' => ok = true → FloorHeld scope v h') E h := by
  obtain ⟨hfloor, hjournal, hcalls⟩ := hs
  have hstored : ∀ generation stores,
      FloorHeld scope v ((h.stored generation stores).counting generation) := by
    intro generation stores
    refine ⟨⟨hfloor, _, rfl, hfloor⟩, ?_⟩
    show StoredAtLeast scope v (.stored _ :: h.calls)
    rw [hcalls]
    exact ⟨trivial, .inl hfloor⟩
  unfold wp persist
  rw [if_pos hjournal]
  cases checkedAdd h.server.journalGeneration 1 with
  | none => exact fun h => absurd h Bool.false_ne_true
  | some generation =>
    match h.stores with
    | [] => exact fun _ => hstored generation []
    | .stored :: rest => exact fun _ => hstored generation rest
    | .failed :: rest => exact fun h => absurd h Bool.false_ne_true
    | .replaced :: rest => exact fun h => absurd h Bool.false_ne_true

theorem floorRaised_withPolicy (hjournal : h.server.journal = true)
    (hcalls : h.calls = []) (scope : String) (floor : RevisionFloor) :
    FloorRaised scope floor.version (h.withPolicy (h.server.policy.raised scope floor)) :=
  ⟨⟨floor, OrdMap.get_insert_self _ _ _, le_refl _⟩, hjournal, hcalls⟩

theorem wp_spendGrant_held (granted : GrantedEnvelope) (now : UInt64)
    (hs : FloorRaised scope v h) :
    wp (spendGrant sv granted now) (fun _ => FloorHeld scope v) Declines h := by
  rw [spendGrant, wp_bind, wp_ofExcept]
  refine ⟨fun bound _ => ?_, fun _ _ => rfl⟩
  rw [wp_bind, wp_get, wp_bind, wp_runIf]
  refine ⟨fun _ => rfl, fun _ => ?_⟩
  refine wp_bind_of_keeps (keeps_consumeGrant (fun _ h => h) _ _ _ _ _ _ _) hs
    fun consumed h hs => ?_
  rw [wp_bind]
  cases consumed with
  | error code => exact rfl
  | ok _ =>
    refine (wp_bind _ _ _ _ _).mpr ((wp_whenFails _ _ _ _ _).mpr ?_)
    refine wp_mono (wp_persist_raised hs) (fun ok h hok => ?_) fun _ _ he => he
    refine ⟨hok, fun _ => ?_⟩
    refine wp_mono (Keeps.refuses (I := fun _ => True) (E := Declines) ?_ (fun _ => ?_) h trivial)
      (fun _ _ hfalse => hfalse.elim) fun _ _ he => he
    · exact fun _ _ => trivial
    · exact Keeps.refuses (keeps_withVerifier (fun _ h => h) _ _) fun _ =>
        refuses_throw fun _ _ => rfl

section Checks
variable {I : Host sv → Prop} {E : NetdResponse → Host sv → Prop}
  (hE : ∀ code reason s, I s → E (reject code reason) s)
include hE

theorem keeps_checkDesiredIdentity (desired : DesiredStateEnvelope) :
    Keeps I E (checkDesiredIdentity sv desired) := by
  refine keeps_get.bind fun h => Keeps.bind (keeps_okOr fun _ => hE _ _ _) fun pinned => ?_
  exact keeps_rejectIf fun _ => hE _ _ _

theorem keeps_validateFrame (uid : UInt32) (frame : Bytes) :
    Keeps I E (validateFrame sv uid frame) := by
  refine keeps_get.bind fun h => Keeps.bind (keeps_rejectIf fun _ => hE _ _ _) fun _ => ?_
  exact Keeps.bind (keeps_rejectIf fun _ => hE _ _ _) fun _ => keeps_rejectIf fun _ => hE _ _ _

end Checks

variable {frame : Bytes}

theorem wp_prepareDispatch_target (uid : UInt32) (now : UInt64)
    {Q : Dispatch → Host sv → Prop} {E : NetdResponse → Host sv → Prop}
    (htarget : (sv.pk.frameContent (frame.drop 4)).target = some (scope, v))
    (hrefused : ∀ code reason, E (reject code reason) h)
    (hdesired : ∀ desired : DesiredStateEnvelope, desiredScope = scope → desired.floor.version = v →
      h.server.policy.Passes scope desired.floor →
      wp (do
        whenFails persist do
          rollback desiredScope desired.epoch desired.revision
          throw (reject .busy "failed to persist desired revision floor")
        let answer ← caught (applyLegacyDesired sv desired)
        answerDesired sv desired answer) (fun _ _ => False) E
        (h.withPolicy (h.server.policy.raised scope desired.floor)))
    (hgranted : ∀ granted : GrantedEnvelope, granted.envelope.request.overlayId = scope →
      granted.envelope.floor.version = v → h.server.policy.Passes scope granted.envelope.floor →
      wp (spendGrant sv granted now) Q E
        (h.withPolicy (h.server.policy.raised scope granted.envelope.floor))) :
    wp (prepareDispatch sv uid frame now) Q E h := by
  rw [prepareDispatch, wp_bind]
  have hE : ∀ code reason s, s = h → E (reject code reason) s := by
    rintro code reason _ rfl
    exact hrefused code reason
  refine wp_mono (keeps_validateFrame hE uid frame h rfl) ?_ fun _ _ he => he
  rintro _ _ rfl
  rw [wp_bind]
  unfold Packages.frameContent at htarget
  split_ifs at htarget with hbulk
  · cases htarget
  cases hread : sv.pk.readDesired (frame.drop 4) with
  | some desired =>
    rw [hread] at htarget
    obtain ⟨rfl, rfl⟩ := Prod.mk.inj (Option.some.inj htarget)
    rw [tryLegacyFrame, wp_bind, wp_rejectIf, hread]
    refine ⟨fun _ => hrefused _ _, fun _ => ?_⟩
    refine (wp_bind _ _ _ _ _).mpr ((wp_bind _ _ _ _ _).mpr ?_)
    refine wp_mono (keeps_checkDesiredIdentity hE desired _ rfl) ?_ fun _ _ he => he
    rintro _ _ rfl
    refine (wp_bind _ _ _ _ _).mpr ((wp_bind _ _ _ _ _).mpr ?_)
    rw [wp_ofExcept]
    refine ⟨fun policy hpolicy => ?_, fun _ _ => hrefused _ _⟩
    obtain ⟨rfl, hpasses⟩ := Policy.validateDesired_eq_ok hpolicy
    show wp (whenFails persist _) _ _ (Host.withPolicy _ _)
    refine wp_mono ((wp_bind _ _ _ _ _).mp (hdesired desired rfl rfl hpasses))
      (fun _ _ hnext => ?_) fun _ _ he => he
    exact wp_mono hnext (fun _ _ hfalse => hfalse.elim) fun _ _ he => he
  | none =>
    rw [tryLegacyFrame, wp_bind, wp_rejectIf, hread]
    refine ⟨fun h => absurd h hbulk, fun _ => ?_⟩
    show wp (readGranted sv (frame.drop 4) now >>= _) _ _ _
    rw [wp_bind, readGranted]
    rw [hread] at htarget
    cases hgrant : sv.pk.readGranted (frame.drop 4) with
    | none =>
      rw [hgrant] at htarget
      cases hsigned : sv.pk.readSigned (frame.drop 4) <;> rw [hsigned] at htarget <;> cases htarget
    | some granted =>
      rw [hgrant] at htarget
      obtain ⟨rfl, rfl⟩ := Prod.mk.inj (Option.some.inj htarget)
      rw [wp_pure, wp_bind, wp_get, wp_bind, wp_rejectIf]
      refine ⟨fun _ => hrefused _ _, fun _ => ?_⟩
      rw [wp_bind, wp_ofExcept]
      refine ⟨fun policy hpolicy => ?_, fun _ _ => hrefused _ _⟩
      obtain ⟨rfl, hpasses⟩ := Policy.validate_eq_ok hpolicy
      exact hgranted granted rfl rfl hpasses

theorem wp_prepareDispatch_held (uid : UInt32) (now : UInt64)
    (htarget : (sv.pk.frameContent (frame.drop 4)).target = some (scope, v))
    (hjournal : h.server.journal = true) (hcalls : h.calls = []) :
    wp (prepareDispatch sv uid frame now) (fun _ => FloorHeld scope v)
      (fun r h' => r.acknowledges = true → FloorHeld scope v h') h := by
  refine wp_prepareDispatch_target uid now htarget (fun _ _ h => absurd h Bool.false_ne_true) ?_ ?_
  · rintro desired rfl rfl -
    refine (wp_bind _ _ _ _ _).mpr ((wp_whenFails _ _ _ _ _).mpr ?_)
    refine wp_mono (wp_persist_raised (floorRaised_withPolicy hjournal hcalls _ _))
      (fun ok h' hok => ⟨fun htrue => ?_, fun _ h => absurd h Bool.false_ne_true⟩)
      fun _ _ he => he
    refine (wp_bind _ _ _ _ _).mpr ((wp_caught _ _ _ _).mpr ?_)
    exact wp_mono (stable_floorHeld.applyLegacyDesired desired h' (hok htrue))
      (fun _ _ hs _ => hs) fun _ _ _ h => absurd h Bool.false_ne_true
  · rintro granted rfl rfl -
    exact wp_mono (wp_spendGrant_held granted now (floorRaised_withPolicy hjournal hcalls _ _))
      (fun _ _ hs => hs) fun _ _ hd h => absurd h (hd ▸ Bool.false_ne_true)

theorem wp_prepareDispatch_stale (uid : UInt32) (now : UInt64)
    {older : Version} (htarget : (sv.pk.frameContent (frame.drop 4)).target = some (scope, older))
    (hfloor : FloorAtLeast scope v h.floors) (holder : older < v) (hcalls : h.calls = []) :
    wp (prepareDispatch sv uid frame now) (fun _ _ => False) (fun _ h' => h'.calls = []) h := by
  obtain ⟨old, hold, hle⟩ := hfloor
  refine wp_prepareDispatch_target uid now htarget (fun _ _ => hcalls) ?_ ?_
  · rintro desired - rfl hpasses
    exact absurd (hpasses.version_le hold) (not_le.mpr (holder.trans_le hle))
  · rintro granted - rfl hpasses
    exact absurd (hpasses.version_le hold) (not_le.mpr (holder.trans_le hle))

theorem wp_handlePeer_held (uid : UInt32) (now : UInt64)
    (htarget : (sv.pk.frameContent (frame.drop 4)).target = some (scope, v))
    (hjournal : h.server.journal = true) (hcalls : h.calls = []) :
    wp (handlePeer sv uid frame now) (fun _ => FloorHeld scope v)
      (fun r h' => r.acknowledges = true → FloorHeld scope v h') h := by
  rw [handlePeer, wp_bind]
  refine wp_mono (wp_prepareDispatch_held uid now htarget hjournal hcalls) (fun d h' hs => ?_)
    fun _ _ he => he
  refine wp_mono (guarded_floorHeld.execute d h' hs) (fun _ _ h => h) fun r h' he hack => ?_
  cases r with
  | rejected code reason => cases hack
  | applied => exact he
  | removed => exact he
  | attached => exact he
  | detached => exact he
  | snapshot overlayId revision => cases hack

/-! Whole runs. -/

def Step.Regular (d : Daemon sv) (s : Step sv) : Prop :=
  ∀ scope, .rollback scope ∈ s.calls d → d.host.floors.get scope = none

def RegularRun : Daemon sv → List (Step sv) → Prop
  | _, [] => True
  | d, s :: steps => s.Regular d ∧ RegularRun (s.apply d) steps

def HoldsFloor (scope : String) (v : Version) (d : Daemon sv) : Prop :=
  FileAtLeast scope v d.host.file ∧ (d.running = true → FloorAtLeast scope v d.host.floors)

def Journaled (d : Daemon sv) : Prop := d.running = true → d.host.server.journal = true

theorem guarded_journal : Guarded (fun h : Host sv => h.server.journal = true)
    (fun h => h.server.journal = true) :=
  have hstable : Stable fun h : Host sv => h.server.journal = true :=
    ⟨fun _ h => h, fun _ h => h, fun _ _ h => h, fun _ h => h, fun h => h, fun _ _ h => h,
      fun _ h => h, fun _ h => h⟩
  ⟨hstable, hstable, fun h => h, fun _ _ _ h => h, fun _ _ _ h => h⟩

theorem loadJournal_keeps {I : Host sv → Prop} (hI : Stable I) (config : Config sv)
    (newJournalId : Id) (stores : List StoreOutcome) (file : Option JournalFrame)
    (hstart : I ⟨(NetdServer.compose config).restored newJournalId file, file, stores, []⟩) :
    I (Step.loaded config newJournalId stores file).2 := by
  refine after_of_wp (m := loadJournal sv newJournalId) ?_
  rw [loadJournal, wp_bind]
  show wp (_ >>= _) _ _ _
  refine Keeps.bind (keeps_modify fun _ h => hI.owned _ h) (fun _ => ?_) _ hstart
  refine (hI.persist.ensure fun _ h => h).bind fun _ => keeps_get.bind fun h => ?_
  exact (hI.withVerifier _ _).ensure fun _ h => h

variable {d : Daemon sv}

theorem Journaled.apply (h : Journaled d) (s : Step sv) : Journaled (s.apply d) := by
  cases s with
  | frame r =>
    unfold Step.apply
    split_ifs with hrunning
    · intro _
      refine after_of_wp (m := handlePeer sv r.uid r.frame r.now) (wp_mono
        (guarded_journal.handlePeer r.uid r.frame r.now (r.start d.host) (h hrunning))
        (fun _ _ h => h) fun response h he => ?_)
      cases response <;> exact he
    · exact h
  | crash r count =>
    unfold Step.apply
    split_ifs with hrunning
    · exact fun h => absurd h Bool.false_ne_true
    · exact h
  | start config newJournalId stores =>
    intro _
    refine loadJournal_keeps guarded_journal.strong config newJournalId stores _ ?_
    unfold NetdServer.restored
    split <;> rfl

theorem StoredAtLeast.drop {calls : List Call} (h : StoredAtLeast scope v calls) (n : Nat) :
    StoredAtLeast scope v (calls.drop n) := by
  induction n generalizing calls with
  | zero => exact h
  | succ n ih =>
    cases calls with
    | nil => exact trivial
    | cons call calls => exact ih h.1

theorem StoredAtLeast.storedFile {calls : List Call} (h : StoredAtLeast scope v calls)
    (hnot : .rollback scope ∉ calls) {file : Option JournalFrame} (hfile : FileAtLeast scope v file) :
    FileAtLeast scope v (storedFile calls file) := by
  induction calls with
  | nil => exact hfile
  | cons call calls ih =>
    have hrest := ih h.1 fun hmem => hnot (List.mem_cons_of_mem _ hmem)
    cases call with
    | stored frame =>
      refine ⟨frame, rfl, h.2.resolve_right fun hmem => hnot (List.mem_cons_of_mem _ hmem)⟩
    | kernel call => exact hrest
    | beginOverlayIntent identity => exact hrest
    | applyLegacyDesired => exact hrest
    | rollback scope => exact hrest

theorem Received.handled_held (r : Received) (hfloor : FloorAtLeast scope v h.floors)
    (hfile : FileAtLeast scope v h.file) : FloorHeldOrRolledBack scope v (r.handled h).2 := by
  refine after_of_wp (m := handlePeer sv r.uid r.frame r.now) (wp_mono
    (guarded_floorHeld.handlePeer r.uid r.frame r.now (r.start h) ⟨⟨hfloor, hfile⟩, trivial⟩)
    (fun _ _ hs => guarded_floorHeld.weaken hs) fun response h he => ?_)
  cases response with
  | rejected code reason => exact he
  | applied => exact guarded_floorHeld.weaken he
  | removed => exact guarded_floorHeld.weaken he
  | attached => exact guarded_floorHeld.weaken he
  | detached => exact guarded_floorHeld.weaken he
  | snapshot overlayId revision => exact guarded_floorHeld.weaken he

variable {s : Step sv}

theorem HoldsFloor.apply (h : HoldsFloor scope v d)
    (hregular : s.Regular d) : HoldsFloor scope v (s.apply d) := by
  cases s with
  | frame r =>
    unfold Step.apply
    split_ifs with hrunning
    · obtain ⟨floor, hget, -⟩ := h.2 hrunning
      have hnot : .rollback scope ∉ r.calls d.host := by
        intro hmem
        have hnone := hregular scope (by simpa [Step.calls, hrunning] using hmem)
        rw [hget] at hnone
        cases hnone
      obtain ⟨hfloor, hfile⟩ :=
        (r.handled_held (h.2 hrunning) h.1).1.resolve_right hnot
      exact ⟨hfile, fun _ => hfloor⟩
    · exact h
  | crash r count =>
    unfold Step.apply
    split_ifs with hrunning
    · obtain ⟨floor, hget, -⟩ := h.2 hrunning
      have hnot : .rollback scope ∉ r.callsBefore d.host count := by
        intro hmem
        have hnone := hregular scope (by simpa [Step.calls, hrunning] using hmem)
        rw [hget] at hnone
        cases hnone
      have hstored := (r.handled_held (h.2 hrunning) h.1).2.drop
        ((r.calls d.host).length - count)
      exact ⟨hstored.storedFile hnot h.1, fun h => absurd h Bool.false_ne_true⟩
    · exact h
  | start config newJournalId stores =>
    have hheld : FloorHeld scope v (Step.loaded config newJournalId stores d.host.file).2 := by
      refine loadJournal_keeps stable_floorHeld config newJournalId stores _ ⟨⟨?_, h.1⟩, trivial⟩
      obtain ⟨frame, hfile, hfloor⟩ := h.1
      rw [hfile]
      exact hfloor
    exact ⟨hheld.1.2, fun _ => hheld.1.1⟩

theorem HoldsFloor.run (h : HoldsFloor scope v d) {steps : List (Step sv)}
    (hregular : RegularRun d steps) : HoldsFloor scope v (d.run steps) := by
  induction steps generalizing d with
  | nil => exact h
  | cons s steps ih => exact ih (h.apply hregular.1) hregular.2

variable {steps steps' : List (Step sv)}

theorem RegularRun.append
    (h : RegularRun d (steps ++ steps')) : RegularRun (d.run steps) steps' := by
  induction steps generalizing d with
  | nil => exact h
  | cons s steps ih => exact ih h.2

theorem RegularRun.of_append
    (h : RegularRun d (steps ++ steps')) : RegularRun d steps := by
  induction steps generalizing d with
  | nil => exact trivial
  | cons s steps ih => exact ⟨h.1, ih h.2⟩

theorem Journaled.run (h : Journaled d) (steps : List (Step sv)) :
    Journaled (d.run steps) := by
  induction steps generalizing d with
  | nil => exact h
  | cons s steps ih => exact ih (h.apply s)

theorem Received.acknowledged_holds (hj : Journaled d) (hrunning : d.running = true)
    {r : Received} (htarget : (sv.pk.frameContent (r.frame.drop 4)).target = some (scope, v))
    (hack : (r.response d.host).acknowledges = true) :
    HoldsFloor scope v ((Step.frame r).apply d) := by
  have hwp := wp_handlePeer_held r.uid r.now (h := r.start d.host) htarget (hj hrunning) rfl
  have hheld : FloorHeld scope v (r.handled d.host).2 := by
    rw [wp_iff] at hwp
    cases hresult : (handlePeer sv r.uid r.frame r.now).result (r.start d.host) with
    | ok response => exact hwp.1 response hresult
    | error response =>
      refine hwp.2 response hresult ?_
      rw [Received.response, show (r.handled d.host).1 = .error response from hresult] at hack
      exact hack
  rw [Step.apply, if_pos hrunning]
  exact ⟨hheld.1.2, fun _ => hheld.1.1⟩

theorem HoldsFloor.not_executes (h : HoldsFloor scope v d)
    {r : Received} (hs : s.received = some r) {older : Version}
    (htarget : (sv.pk.frameContent (r.frame.drop 4)).target = some (scope, older))
    (holder : older < v) : ¬s.Executes d := by
  have hcalls : d.running = true → r.calls d.host = [] := by
    intro hrunning
    have hwp : wp (handlePeer sv r.uid r.frame r.now) (fun _ h' => h'.calls = [])
        (fun _ h' => h'.calls = []) (r.start d.host) := by
      rw [handlePeer, wp_bind]
      exact wp_mono (wp_prepareDispatch_stale r.uid r.now htarget (h.2 hrunning) holder rfl)
        (fun _ _ hfalse => hfalse.elim) fun _ _ he => he
    exact after_of_wp hwp
  have hnone : s.calls d = [] := by
    cases s with
    | start config newJournalId stores => cases hs
    | frame r' =>
      obtain rfl := Option.some.inj hs
      unfold Step.calls
      split_ifs with hrunning
      · exact hcalls hrunning
      · rfl
    | crash r' count =>
      obtain rfl := Option.some.inj hs
      unfold Step.calls
      split_ifs with hrunning
      · show (r'.calls d.host).drop _ = []
        rw [hcalls hrunning, List.drop_nil]
      · rfl
  rintro ⟨call, hmem, -⟩
  rw [hnone] at hmem
  cases hmem

def Daemon.stopped (host : Host sv) : Daemon sv := ⟨host, false⟩

/-- Revision floors never regress in a run whose rollbacks are all of scopes that had no floor:
after an acknowledged frame, no older frame of its scope is executed, whatever frames, stops and
starts lie between. -/
theorem run_floors_never_regress (host : Host sv) (before between after : List (Step sv))
    (r : Received) (last : Step sv) (older : Received) (scope : String) (v w : Version)
    (hregular : RegularRun (Daemon.stopped host)
      (before ++ .frame r :: (between ++ last :: after)))
    (hrunning : ((Daemon.stopped host).run before).running = true)
    (hack : (r.response ((Daemon.stopped host).run before).host).acknowledges = true)
    (htarget : (sv.pk.frameContent (r.frame.drop 4)).target = some (scope, v))
    (hlast : last.received = some older)
    (holder : (sv.pk.frameContent (older.frame.drop 4)).target = some (scope, w))
    (hlt : w < v) :
    ¬last.Executes ((Daemon.stopped host).run (before ++ .frame r :: between)) := by
  have hjournaled : Journaled ((Daemon.stopped host).run before) :=
    Journaled.run (fun h => absurd h Bool.false_ne_true) before
  have hheld := Received.acknowledged_holds hjournaled hrunning htarget hack
  have hbetween : RegularRun ((Step.frame r).apply ((Daemon.stopped host).run before)) between :=
    hregular.append.2.of_append
  rw [Daemon.run_append]
  exact (hheld.run hbetween).not_executes hlast holder hlt

def Call.isRollback : Call → Bool
  | .rollback _ => true
  | .kernel _ | .beginOverlayIntent _ | .applyLegacyDesired | .stored _ => false

theorem Step.regular_of_none
    (h : (s.calls d).any Call.isRollback = false) : s.Regular d := by
  intro scope hmem
  have hany : (s.calls d).any Call.isRollback = true := List.any_eq_true.mpr ⟨_, hmem, rfl⟩
  rw [h] at hany
  cases hany

def recordedStopped : Daemon recordedServices :=
  .stopped ⟨.compose recordedConfig, none, [], []⟩

def recordedStart : Step recordedServices := .start recordedConfig (.fill 16 7) []

def recordedReceived (revision : UInt64) (stores : List StoreOutcome) : Received :=
  ⟨1000, framed ((signedRevision revision).json []), 50, stores⟩

theorem recorded_target_two : (recordedServices.pk.frameContent
    ((recordedReceived 2 []).frame.drop 4)).target = some (desiredScope, version 1 2) := by
  have hcontent : recordedServices.pk.frameContent ((recordedReceived 2 []).frame.drop 4)
      = .desired (signedRevision 2) := by decide +kernel
  rw [hcontent]
  rfl

theorem recorded_target_one : (recordedServices.pk.frameContent
    ((recordedReceived 1 []).frame.drop 4)).target = some (desiredScope, version 1 1) := by
  have hcontent : recordedServices.pk.frameContent ((recordedReceived 1 []).frame.drop 4)
      = .desired (signedRevision 1) := by decide +kernel
  rw [hcontent]
  rfl

/-- After the second revision and a new start the first one is not executed. -/
theorem run_floors_never_regress_restarted :
    (recordedStopped.run [recordedStart]).running = true ∧
      (recordedReceived 2 []).response (recordedStopped.run [recordedStart]).host = .applied ∧
      ¬(Step.frame (recordedReceived 1 [])).Executes
        (recordedStopped.run [recordedStart, .frame (recordedReceived 2 []), recordedStart]) := by
  have hstart : (recordedStopped.run [recordedStart]).running = true ∧
      (recordedReceived 2 []).response (recordedStopped.run [recordedStart]).host = .applied := by
    decide +kernel
  have hack : ((recordedReceived 2 []).response
      (recordedStopped.run [recordedStart]).host).acknowledges = true := by
    rw [hstart.2]
    rfl
  refine ⟨hstart.1, hstart.2, run_floors_never_regress _ [recordedStart] [recordedStart] []
    (recordedReceived 2 []) (.frame (recordedReceived 1 [])) (recordedReceived 1 []) desiredScope
    (version 1 2) (version 1 1) ?_ hstart.1 hack recorded_target_two rfl recorded_target_one
    (by decide)⟩
  refine ⟨Step.regular_of_none rfl, Step.regular_of_none ?_, Step.regular_of_none rfl,
    Step.regular_of_none ?_, trivial⟩
  · decide +kernel
  · decide +kernel

/-- The second revision is applied, the third cannot be stored, and then the first is applied. -/
theorem older_revision_after_failed_store :
    (recordedServices.pk.frameContent ((recordedReceived 2 []).frame.drop 4)).target
        = some (desiredScope, version 1 2) ∧
      (recordedServices.pk.frameContent ((recordedReceived 1 []).frame.drop 4)).target
        = some (desiredScope, version 1 1) ∧
      version 1 1 < version 1 2 ∧
      (recordedReceived 2 []).response (recordedStopped.run [recordedStart]).host = .applied ∧
      (recordedReceived 3 [.failed]).response
          (recordedStopped.run [recordedStart, .frame (recordedReceived 2 [])]).host
        = .rejected .busy "failed to persist desired revision floor" ∧
      .applyLegacyDesired ∈ (Step.frame (recordedReceived 1 [])).calls
        (recordedStopped.run [recordedStart, .frame (recordedReceived 2 []),
          .frame (recordedReceived 3 [.failed])]) := by
  refine ⟨recorded_target_two, recorded_target_one, by decide, ?_⟩
  decide +kernel

end Ferrocrate.Netd
