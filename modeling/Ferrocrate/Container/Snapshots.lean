import Ferrocrate.Container.StoreStep
import Ferrocrate.Lib.Runs

/-! Writers that read a container row and put it back later, among all other operations of the
store: which puts lose an update. -/
namespace Ferrocrate.Container
open Lib

structure Snapshot where
  record : ContainerRecord
  readAt : Nat
  deletions : Nat

/-- The store, the writers, and what happened to the rows: when a row's last reservation was taken,
when those completed since the row exists were taken, and how often it was deleted. -/
structure StoreRun where
  db : Database
  now : Nat
  snapshots : Nat → Option Snapshot
  taken : String → Nat
  completed : String → List Nat
  deletions : String → Nat

inductive StoreAct where
  | call (call : StoreCall)
  | read (writer : Nat) (id : String)
  | write (writer : Nat) (edit : ContainerRecord → ContainerRecord)

def updateStatus (writer : Nat) (id status : String) : List StoreAct :=
  [.read writer id, .write writer fun record => { record with status := status }]

namespace StoreRun

def initial : StoreRun := ⟨.new, 0, fun _ => none, fun _ => 0, fun _ => [], fun _ => 0⟩

def observe (m : StoreRun) (db : Database) : StoreRun where
  db := db
  now := m.now + 1
  snapshots := m.snapshots
  taken id :=
    match m.db.row id, db.row id with
    | some ⟨_, none⟩, some ⟨_, some _⟩ => m.now
    | none, some ⟨_, some _⟩ => m.now
    | _, _ => m.taken id
  completed id :=
    match m.db.row id, db.row id with
    | _, none => []
    | some ⟨_, some _⟩, some ⟨_, none⟩ => m.taken id :: m.completed id
    | _, _ => m.completed id
  deletions id :=
    match m.db.row id, db.row id with
    | some _, none => m.deletions id + 1
    | _, _ => m.deletions id

def act (m : StoreRun) : StoreAct → StoreRun
  | .call call => m.observe (m.db.step call)
  | .read writer id =>
    { m with
      now := m.now + 1
      snapshots := Function.update m.snapshots writer
        ((m.db.containers.get id).map fun record => ⟨record, m.now, m.deletions id⟩) }
  | .write writer edit =>
    match m.snapshots writer with
    | none => m
    | some snapshot => m.observe (m.db.step (.put (edit snapshot.record)))

/-- A put goes through over a row of which a reservation was completed that had been taken after
the record was read. -/
def Overwrites (m : StoreRun) : StoreAct → Prop
  | .write writer edit => ∃ snapshot db', m.snapshots writer = some snapshot ∧
      m.db.put (edit snapshot.record) = .ok db' ∧
      (m.db.row (edit snapshot.record).id).isSome ∧
      ∃ taken ∈ m.completed (edit snapshot.record).id, snapshot.readAt < taken
  | _ => False

/-- No generation of a row goes down, and nothing published under a completed reservation is
overwritten from an older read. -/
def Safe (m : StoreRun) (act : StoreAct) : Prop :=
  (∀ id view view', m.db.row id = some view → (m.act act).db.row id = some view' →
    view.generation ≤ view'.generation) ∧ ¬ m.Overwrites act

def fresh (m : StoreRun) : StoreAct → Bool
  | .call (.put record) =>
    record.pendingMutation.isSome || (m.db.row record.id).all fun view =>
      view.pending.isSome || view.generation ≤ record.mutationGeneration
  | .call (.putIfGenerationUnreserved record expected) => expected ≤ record.mutationGeneration
  | .write writer edit =>
    (m.snapshots writer).all fun snapshot =>
      let record := edit snapshot.record
      record.pendingMutation.isSome || (m.db.row record.id).all fun view =>
        view.pending.isSome || (record.id = snapshot.record.id
          && m.deletions record.id = snapshot.deletions
          && view.generation = snapshot.record.mutationGeneration
          && record.mutationGeneration = view.generation
          && view.generation.toNat + 1 < 2 ^ 64)
  | _ => true

end StoreRun

def Database.Rises (db db' : Database) : Prop :=
  ∀ id view view', db.row id = some view → db'.row id = some view' →
    view.generation ≤ view'.generation ∧
    (view.pending.isSome → view'.pending = none →
      view.generation < view'.generation ∨ ¬ view'.generation.toNat + 1 < 2 ^ 64)

namespace Database
variable {db db' : Database}

theorem Rises.refl (db : Database) : db.Rises db := by
  intro id view view' h h'
  rw [h] at h'
  cases h'
  exact ⟨UInt64.le_refl _, fun hsome hnone => by rw [hnone] at hsome; cases hsome⟩

theorem rises_of_update {id : String} {row' : Option RowView}
    (hrow : db'.row = Function.update db.row id row')
    (h : ∀ view view', db.row id = some view → row' = some view' →
      view.generation ≤ view'.generation ∧
      (view.pending.isSome → view'.pending = none →
        view.generation < view'.generation ∨ ¬ view'.generation.toNat + 1 < 2 ^ 64)) :
    db.Rises db' := by
  intro other view view' hv hv'
  rw [hrow, Function.update_apply] at hv'
  split at hv'
  next heq =>
    rw [heq] at hv
    exact h view view' hv hv'
  next =>
    rw [hv] at hv'
    cases hv'
    exact ⟨UInt64.le_refl _, fun hsome hnone => by rw [hnone] at hsome; cases hsome⟩

theorem le_nextGeneration (generation : UInt64) : generation ≤ nextGeneration generation ∧
    (generation < nextGeneration generation ∨
      ¬ (nextGeneration generation).toNat + 1 < 2 ^ 64) := by
  unfold nextGeneration
  split
  next h =>
    have hnat : (generation + 1).toNat = generation.toNat + 1 := by
      rw [UInt64.toNat_add]
      exact Nat.mod_eq_of_lt h
    have hlt : generation < generation + 1 := by
      rw [UInt64.lt_iff_toNat_lt, hnat]
      omega
    exact ⟨UInt64.le_of_lt hlt, .inl hlt⟩
  next h => exact ⟨UInt64.le_refl _, .inr h⟩

theorem rises_of_step {call : StoreCall} (h : StoreStep db db' call)
    (hwritten : ∀ id generation view, call.written = some (id, generation) →
      db.row id = some view → view.pending = none →
      (∀ expected ∈ call.expected, view.generation = expected) → view.generation ≤ generation) :
    db.Rises db' := by
  have hsame : db'.row = db.row → db.Rises db' := by
    intro hrow other view view' hv hv'
    rw [hrow] at hv'
    exact Rises.refl db other view view' hv hv'
  cases h with
  | keep hrow hop => exact hsame hrow
  | effect id operationId view hpending hid hrow hheld hop => exact hsame hrow
  | acknowledge operationId hrow hop => exact hsame hrow
  | write id generation hcall hfree hrow hop =>
    refine rises_of_update hrow ?_
    intro view view' hv hv'
    cases hv'
    obtain ⟨hnone, hexpected⟩ := hfree view hv
    exact ⟨hwritten id generation view hcall hv hnone hexpected,
      fun hsome _ => by rw [hnone] at hsome; cases hsome⟩
  | reserve id operationId generation reserved hfree _ hnew hrow hop =>
    refine rises_of_update hrow ?_
    intro view view' hv hv'
    cases hv'
    exact ⟨(hfree view hv).2 ▸ UInt64.le_refl _, fun _ hnone => by cases hnone⟩
  | reReserve id operationId generation isOpen hfree hheld hrow hop =>
    refine rises_of_update hrow ?_
    intro view view' hv hv'
    cases hv'
    rw [hfree] at hv
    cases hv
    exact ⟨UInt64.le_refl _, fun _ hnone => by cases hnone⟩
  | delete id operationId view held hpending hid hheld hrow hop =>
    exact rises_of_update hrow fun view view' _ hv' => by cases hv'
  | finish id operationId generation hpending hrow hop =>
    refine rises_of_update hrow ?_
    intro view view' hv hv'
    cases hv'
    rw [hpending] at hv
    cases hv
    exact ⟨(le_nextGeneration generation).1, fun _ _ => (le_nextGeneration generation).2⟩
  | remove id hrow hop => exact rises_of_update hrow fun view view' _ hv' => by cases hv'

end Database

structure StoreRun.Tracked (m : StoreRun) : Prop where
  taken_le : ∀ id, m.taken id ≤ m.now
  completed_le : ∀ id, ∀ t ∈ m.completed id, t ≤ m.now
  deletions_le : ∀ writer snapshot, m.snapshots writer = some snapshot →
    snapshot.deletions ≤ m.deletions snapshot.record.id
  present : ∀ writer snapshot, m.snapshots writer = some snapshot →
    snapshot.deletions = m.deletions snapshot.record.id →
    ∃ view, m.db.row snapshot.record.id = some view ∧
      snapshot.record.mutationGeneration ≤ view.generation ∧
      (view.generation = snapshot.record.mutationGeneration →
        view.generation.toNat + 1 < 2 ^ 64 →
        ∀ t ∈ m.completed snapshot.record.id, t ≤ snapshot.readAt)

namespace StoreRun
variable {m : StoreRun}

theorem Tracked.initial : Tracked .initial where
  taken_le id := le_rfl
  completed_le id t h := by cases h
  deletions_le writer snapshot h := by cases h
  present writer snapshot h := by cases h

theorem taken_observe (db : Database) (id : String) :
    (m.observe db).taken id = m.now ∨ (m.observe db).taken id = m.taken id := by
  simp only [observe]
  split
  · exact .inl rfl
  · exact .inl rfl
  · exact .inr rfl

variable {db : Database}

theorem mem_completed_observe {id : String} {t : Nat}
    (h : t ∈ (m.observe db).completed id) : t = m.taken id ∨ t ∈ m.completed id := by
  simp only [observe] at h
  split at h
  · cases h
  · exact List.mem_cons.mp h
  · exact .inr h

theorem observe_of_rows {id : String} {view view' : RowView}
    (h : m.db.row id = some view) (h' : db.row id = some view') :
    (m.observe db).deletions id = m.deletions id ∧
      (¬ (view.pending.isSome ∧ view'.pending = none) →
        (m.observe db).completed id = m.completed id) := by
  obtain ⟨generation, pending⟩ := view
  obtain ⟨generation', pending'⟩ := view'
  simp only [observe, h, h']
  constructor
  · trivial
  · intro hnot
    cases pending with
    | none => cases pending' <;> rfl
    | some p =>
      cases pending' with
      | none => exact absurd ⟨rfl, rfl⟩ hnot
      | some p' => rfl

theorem deletions_observe_le (db : Database) (id : String) :
    m.deletions id ≤ (m.observe db).deletions id := by
  simp only [observe]
  split <;> omega

theorem Tracked.observe (h : Tracked m) (hrises : m.db.Rises db) :
    Tracked (m.observe db) := by
  constructor
  · intro id
    have := h.taken_le id
    show (m.observe db).taken id ≤ m.now + 1
    rcases taken_observe (m := m) db id with heq | heq <;> omega
  · intro id t ht
    show t ≤ m.now + 1
    rcases mem_completed_observe ht with heq | hold
    · have := h.taken_le id
      omega
    · have := h.completed_le id t hold
      omega
  · intro writer snapshot hsnapshot
    exact (h.deletions_le writer snapshot hsnapshot).trans (deletions_observe_le db _)
  · intro writer snapshot hsnapshot hsame
    have hle := h.deletions_le writer snapshot hsnapshot
    have hmono := deletions_observe_le (m := m) db snapshot.record.id
    obtain ⟨view, hview, hgeneration, hcompleted⟩ :=
      h.present writer snapshot hsnapshot (by omega)
    cases hview' : db.row snapshot.record.id with
    | none =>
      -- the row was deleted in this step
      have : (m.observe db).deletions snapshot.record.id =
          m.deletions snapshot.record.id + 1 := by
        simp only [StoreRun.observe, hview, hview']
      omega
    | some view' =>
      obtain ⟨hrise, hended⟩ := hrises _ view view' hview hview'
      refine ⟨view', hview', UInt64.le_trans hgeneration hrise, ?_⟩
      intro heq hroom t ht
      have hkept : view.generation = snapshot.record.mutationGeneration :=
        UInt64.le_antisymm (heq ▸ hrise) hgeneration
      have hnot : ¬ (view.pending.isSome ∧ view'.pending = none) := by
        intro hend
        rcases hended hend.1 hend.2 with hlt | hmax
        · rw [hkept, heq] at hlt
          exact UInt64.lt_irrefl _ hlt
        · exact hmax hroom
      rw [(observe_of_rows hview hview').2 hnot] at ht
      exact hcompleted hkept (by rw [hkept, ← heq]; exact hroom) t ht

theorem Tracked.read (h : Tracked m) (writer : Nat) (id : String) :
    Tracked (m.act (.read writer id)) := by
  have hcases : ∀ w snapshot, (m.act (.read writer id)).snapshots w = some snapshot →
      m.snapshots w = some snapshot ∨ ∃ record, m.db.containers.get id = some record ∧
        snapshot = ⟨record, m.now, m.deletions id⟩ := by
    intro w snapshot hsnapshot
    simp only [act, Function.update_apply] at hsnapshot
    split at hsnapshot
    · obtain ⟨record, hget, rfl⟩ := Option.map_eq_some_iff.mp hsnapshot
      exact .inr ⟨record, hget, rfl⟩
    · exact .inl hsnapshot
  constructor
  · intro id'
    exact (h.taken_le id').trans (Nat.le_succ _)
  · intro id' t ht
    exact (h.completed_le id' t ht).trans (Nat.le_succ _)
  · intro w snapshot hsnapshot
    rcases hcases w snapshot hsnapshot with hold | ⟨record, hget, rfl⟩
    · exact h.deletions_le w snapshot hold
    · rw [m.db.keyed id record hget]
      exact le_rfl
  · intro w snapshot hsnapshot hsame
    rcases hcases w snapshot hsnapshot with hold | ⟨record, hget, rfl⟩
    · exact h.present w snapshot hold hsame
    · rw [m.db.keyed id record hget]
      exact ⟨record.view, Database.row_eq_some hget, UInt64.le_refl _,
        fun _ _ t ht => h.completed_le id t ht⟩

variable {record : ContainerRecord}

theorem put_not_pending {db db' : Database}
    (h : db.put record = .ok db') : record.pendingMutation.isSome = false := by
  unfold Database.put at h
  split_ifs at h with hpending
  simpa using hpending

theorem rises_step_put
    (hle : record.pendingMutation.isSome = false → ∀ view, db.row record.id = some view →
      view.pending = none → view.generation ≤ record.mutationGeneration) :
    db.Rises (db.step (.put record)) := by
  unfold Database.step
  split
  next db' happly =>
    refine Database.rises_of_step (StoreCall.step_of_apply happly) ?_
    intro id generation view hcall hview hnone _
    cases hcall
    exact hle (put_not_pending happly) view hview hnone
  next => exact Database.Rises.refl db

theorem fresh_write {writer : Nat} {edit : ContainerRecord → ContainerRecord}
    {snapshot : Snapshot} {view : RowView} (h : m.fresh (.write writer edit) = true)
    (hsnapshot : m.snapshots writer = some snapshot)
    (hpending : (edit snapshot.record).pendingMutation.isSome = false)
    (hview : m.db.row (edit snapshot.record).id = some view) (hnone : view.pending = none) :
    (edit snapshot.record).id = snapshot.record.id ∧
      m.deletions (edit snapshot.record).id = snapshot.deletions ∧
      view.generation = snapshot.record.mutationGeneration ∧
      (edit snapshot.record).mutationGeneration = view.generation ∧
      view.generation.toNat + 1 < 2 ^ 64 := by
  simpa [fresh, hsnapshot, hpending, hview, hnone, and_assoc] using h

theorem rises_act {act : StoreAct} (h : m.fresh act = true) : m.db.Rises (m.act act).db := by
  cases act with
  | call call =>
    show m.db.Rises (m.db.step call)
    by_cases hput : ∃ record, call = .put record
    · obtain ⟨record, rfl⟩ := hput
      refine rises_step_put ?_
      intro hpending view hview hnone
      simpa [fresh, hpending, hview, hnone] using h
    · unfold Database.step
      split
      next db' happly =>
        refine Database.rises_of_step (StoreCall.step_of_apply happly) ?_
        intro id generation view hcall hview _ hexpected
        cases call with
        | put record => exact absurd ⟨record, rfl⟩ hput
        | putIfGenerationUnreserved record expected =>
          cases hcall
          rw [hexpected expected rfl]
          simpa [fresh] using h
        | _ => cases hcall
      next => exact Database.Rises.refl m.db
  | read writer id => exact Database.Rises.refl m.db
  | write writer edit =>
    cases hsnapshot : m.snapshots writer with
    | none =>
      simp only [act, hsnapshot]
      exact Database.Rises.refl m.db
    | some snapshot =>
      simp only [act, hsnapshot]
      refine rises_step_put ?_
      intro hpending view hview hnone
      obtain ⟨-, -, -, hgeneration, -⟩ := fresh_write h hsnapshot hpending hview hnone
      exact hgeneration ▸ UInt64.le_refl _

theorem Tracked.act (h : Tracked m) {act : StoreAct} (hfresh : m.fresh act = true) :
    Tracked (m.act act) := by
  have hrises := rises_act hfresh
  cases act with
  | call call => exact h.observe hrises
  | read writer id => exact h.read writer id
  | write writer edit =>
    cases hsnapshot : m.snapshots writer with
    | none =>
      simp only [StoreRun.act, hsnapshot]
      exact h
    | some snapshot =>
      simp only [StoreRun.act, hsnapshot] at hrises ⊢
      exact h.observe hrises

theorem row_of_put {db db' : Database} {view : RowView}
    (h : db.put record = .ok db') (hview : db.row record.id = some view) : view.pending = none := by
  obtain ⟨existing, hget, rfl⟩ := Option.map_eq_some_iff.mp hview
  have hpending := put_not_pending h
  unfold Database.put at h
  rw [if_neg (by simp [hpending]), hget] at h
  dsimp only at h
  split_ifs at h with hexisting
  exact Database.view_pending_none (by simpa using hexisting)

theorem Tracked.safe (h : Tracked m) {act : StoreAct} (hfresh : m.fresh act = true) :
    m.Safe act := by
  constructor
  · intro id view view' hview hview'
    exact (rises_act hfresh id view view' hview hview').1
  · intro hbad
    cases act with
    | call call => exact hbad
    | read writer id => exact hbad
    | write writer edit =>
      obtain ⟨snapshot, db', hsnapshot, hput, hrow, taken, htaken, hlate⟩ := hbad
      obtain ⟨view, hview⟩ := Option.isSome_iff_exists.mp hrow
      obtain ⟨hid, hdeletions, hgeneration, -, hroom⟩ := fresh_write hfresh hsnapshot
        (put_not_pending hput) hview (row_of_put hput hview)
      rw [hid] at hview hdeletions htaken
      obtain ⟨view', hview', -, hcompleted⟩ := h.present writer snapshot hsnapshot hdeletions.symm
      rw [hview] at hview'
      cases hview'
      have := hcompleted hgeneration hroom taken htaken
      omega

/-- In every run whose puts of read records find their rows as they were read, no generation goes
down and no put overwrites what a reservation completed since its read has published. -/
theorem no_update_lost (acts : List StoreAct)
    (hfresh : Runs.Along act (fun m a => m.fresh a = true) .initial acts) :
    Runs.Along act Safe .initial acts := by
  have htracked : Runs.Throughout act Tracked .initial acts :=
    hfresh.invariant (fun m a ha hm => hm.act ha) .initial
  exact htracked.along (fun m a ha hm _ => hm.safe ha) hfresh

def stoppedBetween : List StoreAct :=
  [.call (.put webRecord), .read 0 "web",
    .call (.reserveMutation (fun _ => none) "web" "created" 1 (.fill 16 7) "container.stop"),
    .call (.transitionStatusAndUserStoppedForMutation "web" (.fill 16 7) 1 "created" "stopped"
      (some true)),
    .call (.finishMutation "web" (.fill 16 7))]

def latePut : StoreAct := .write 0 fun record => { record with status := "running" }

theorem late_put_undoes_stop :
    (¬ ∀ acts : List StoreAct, Runs.Along act Safe .initial acts) ∧
    (((stoppedBetween.foldl act .initial).db.containers.get "web").map fun record =>
      (record.status, record.userStopped, record.mutationGeneration)) =
        some ("stopped", true, 2) ∧
    ((((stoppedBetween ++ [latePut]).foldl act .initial).db.containers.get "web").map fun record =>
      (record.status, record.userStopped, record.mutationGeneration)) =
        some ("running", false, 1) := by
  refine ⟨?_, by decide +kernel, by decide +kernel⟩
  intro h
  have hlast := (Runs.along_append stoppedBetween [latePut]).mp (h (stoppedBetween ++ [latePut]))
  have hle := hlast.2.1.1 "web" ⟨2, none⟩ ⟨1, none⟩ (by decide +kernel) (by decide +kernel)
  exact absurd hle (by decide)

theorem no_update_lost_unhindered :
    let acts := stoppedBetween ++ updateStatus 1 "web" "running"
    Runs.Along act (fun m a => m.fresh a = true) .initial acts ∧ Runs.Along act Safe .initial acts :=
  ⟨by decide +kernel, no_update_lost _ (by decide +kernel)⟩

end StoreRun

end Ferrocrate.Container
