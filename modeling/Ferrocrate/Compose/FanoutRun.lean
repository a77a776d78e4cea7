import Ferrocrate.Compose.Fanout
import Mathlib.Data.List.Nodup
import Mathlib.Logic.Function.Basic

/-! Executions of fan-out plans by any number of processes on one replay store (`execute_fanout`,
`FanoutReplayStore::claim`). -/
namespace Ferrocrate.Compose
open Lib

structure FanoutReplayStore where
  rows : List (FixedBytes 16 × Bytes)

inductive ClaimFailure where
  | lock (message : String)
  | insert (message : String)
  | checkpoint (message : String)

def FanoutReplayStore.ids (store : FanoutReplayStore) : List (FixedBytes 16) :=
  store.rows.map Prod.fst

def FanoutReplayStore.insert (store : FanoutReplayStore) (child : FanoutChild) :
    Option FanoutReplayStore :=
  if child.childId ∈ store.ids then none else
  some ⟨store.rows ++ [(child.childId,
    child.idempotencyKey.val ++ child.planDigest.val ++ child.requestDigest.val)]⟩

def FanoutReplayStore.claim (child : FanoutChild) (failure : Option ClaimFailure)
    (store : FanoutReplayStore) : Except FanoutError Unit × FanoutReplayStore :=
  match failure with
  | some (.lock message) => (.error (.storage message), store)
  | some (.insert message) => (.error (.storage message), store)
  | some (.checkpoint message) =>
    match store.insert child with
    | none => (.error .replay, store)
    | some store => (.error (.storage message), store)
  | none =>
    match store.insert child with
    | none => (.error .replay, store)
    | some store => (.ok (), store)

def FanoutError.text : FanoutError → String
  | .replay => "fan-out context replay or substitution"
  | .expired => "fan-out deadline expired"
  | .tooManyChildren => "fan-out contains too many children"
  | .storage message => "fan-out replay store failed: " ++ message

inductive FanoutOutcome where
  | succeeded
  | denied (reason : String)
  | failed (reason : String)

inductive FanoutExecutionError where
  | denied (reason : String)
  | failed (reason : String)

def FanoutOutcome.of : Except FanoutExecutionError Unit → FanoutOutcome
  | .ok () => .succeeded
  | .error (.denied reason) => .denied reason
  | .error (.failed reason) => .failed reason

structure FanoutStatus where
  childId : FixedBytes 16
  outcome : FanoutOutcome

inductive FanoutStage where
  | next
  | verified (child : FanoutChild)
  | claimed (child : FanoutChild)

structure FanoutCall where
  origin : Origin
  plan : FanoutPlan
  todo : List FanoutChild
  stage : FanoutStage
  statuses : List FanoutStatus

def FanoutCall.report (call : FanoutCall) (child : FanoutChild) (outcome : FanoutOutcome) :
    FanoutCall :=
  { call with stage := .next, statuses := call.statuses ++ [⟨child.childId, outcome⟩] }

structure FanoutSystem where
  store : FanoutReplayStore
  calls : Nat → Option FanoutCall
  executed : List (Origin × FanoutChild)

inductive FanoutAct where
  | start (process : Nat) (origin : Origin)
  | verify (process : Nat) (now : UInt64)
  | claim (process : Nat) (failure : Option ClaimFailure)
  | execute (process : Nat) (result : Except FanoutExecutionError Unit)
  | stop (process : Nat)

namespace FanoutSystem
variable (sha256 : Bytes → FixedBytes 32)

def move (m : FanoutSystem) (process : Nat) (call : Option FanoutCall) : FanoutSystem :=
  { m with calls := Function.update m.calls process call }

def next (m : FanoutSystem) : FanoutAct → FanoutSystem
  | .start process origin =>
    match m.calls process, origin.plan sha256 with
    | none, .ok plan => m.move process (some ⟨origin, plan, plan.children, .next, []⟩)
    | _, _ => m
  | .verify process now =>
    match m.calls process with
    | some ⟨origin, plan, child :: rest, .next, statuses⟩ =>
      let call : FanoutCall := ⟨origin, plan, rest, .next, statuses⟩
      match plan.verifyChild child now with
      | .error e => m.move process (some (call.report child (.failed e.text)))
      | .ok () => m.move process (some { call with stage := .verified child })
    | _ => m
  | .claim process failure =>
    match m.calls process with
    | some ⟨origin, plan, todo, .verified child, statuses⟩ =>
      let call : FanoutCall := ⟨origin, plan, todo, .next, statuses⟩
      match m.store.claim child failure with
      | (.error e, store) =>
        { m with store := store }.move process (some (call.report child (.failed e.text)))
      | (.ok (), store) =>
        { m with store := store }.move process (some { call with stage := .claimed child })
    | _ => m
  | .execute process result =>
    match m.calls process with
    | some ⟨origin, plan, todo, .claimed child, statuses⟩ =>
      let call : FanoutCall := ⟨origin, plan, todo, .next, statuses⟩
      { m with executed := m.executed ++ [(origin, child)] }.move process
        (some (call.report child (.of result)))
    | _ => m
  | .stop process => m.move process none

def run (acts : List FanoutAct) (m : FanoutSystem) : FanoutSystem := acts.foldl (next sha256) m

def initial (store : FanoutReplayStore) : FanoutSystem := ⟨store, fun _ => none, []⟩

end FanoutSystem

structure FanoutCall.Planned (sha256 : Bytes → FixedBytes 32) (call : FanoutCall) : Prop where
  plan : call.origin.plan sha256 = .ok call.plan
  verified : ∀ child, call.stage = .verified child ∨ call.stage = .claimed child →
    ∃ now, call.plan.verifyChild child now = .ok ()

/-- A claimed identifier belongs to one call, which has not run the callback yet, or to one run of
the callback. -/
structure FanoutSystem.Sound (sha256 : Bytes → FixedBytes 32) (m : FanoutSystem) : Prop where
  planned : ∀ p call, m.calls p = some call → call.Planned sha256
  executed_planned : ∀ e ∈ m.executed, ∃ plan now, e.1.plan sha256 = .ok plan ∧
    plan.verifyChild e.2 now = .ok ()
  executed_claimed : ∀ e ∈ m.executed, e.2.childId ∈ m.store.ids
  executed_once : (m.executed.map fun e => e.2.childId).Nodup
  claimed : ∀ p call child, m.calls p = some call → call.stage = .claimed child →
    child.childId ∈ m.store.ids ∧ child.childId ∉ m.executed.map fun e => e.2.childId
  claimed_once : ∀ p call child q call' child', m.calls p = some call → call.stage = .claimed child →
    m.calls q = some call' → call'.stage = .claimed child' → child.childId = child'.childId → p = q

namespace FanoutSystem
variable {sha256 : Bytes → FixedBytes 32} {m : FanoutSystem}

theorem calls_move {process p : Nat} {call : Option FanoutCall} :
    (m.move process call).calls p = if p = process then call else m.calls p := by
  simp [move, Function.update_apply]

theorem Sound.initial (store : FanoutReplayStore) : Sound sha256 (.initial store) where
  planned p call h := by cases h
  executed_planned e h := by cases h
  executed_claimed e h := by cases h
  executed_once := List.nodup_nil
  claimed p call child h := by cases h
  claimed_once p call child q call' child' h := by cases h

theorem Sound.move (h : Sound sha256 m) (process : Nat) (call : Option FanoutCall)
    (hplanned : ∀ c ∈ call, c.Planned sha256)
    (hstage : ∀ c ∈ call, ∀ child, c.stage ≠ .claimed child) :
    Sound sha256 (m.move process call) := by
  have hold : ∀ p c child, (m.move process call).calls p = some c → c.stage = .claimed child →
      m.calls p = some c := by
    intro p c child hc hclaimed
    rw [calls_move] at hc
    split at hc
    · exact absurd hclaimed (hstage c hc child)
    · exact hc
  constructor
  · intro p c hc
    rw [calls_move] at hc
    split at hc
    · exact hplanned c hc
    · exact h.planned p c hc
  · exact h.executed_planned
  · exact h.executed_claimed
  · exact h.executed_once
  · intro p c child hc hclaimed
    exact h.claimed p c child (hold p c child hc hclaimed) hclaimed
  · intro p c child q c' child' hc hclaimed hc' hclaimed' hid
    exact h.claimed_once p c child q c' child' (hold p c child hc hclaimed) hclaimed
      (hold q c' child' hc' hclaimed') hclaimed' hid

variable {store : FanoutReplayStore}

theorem Sound.grow (h : Sound sha256 m)
    (hids : ∀ id ∈ m.store.ids, id ∈ store.ids) : Sound sha256 { m with store := store } where
  planned := h.planned
  executed_planned := h.executed_planned
  executed_claimed e he := hids _ (h.executed_claimed e he)
  executed_once := h.executed_once
  claimed p call child hc hclaimed :=
    ⟨hids _ (h.claimed p call child hc hclaimed).1, (h.claimed p call child hc hclaimed).2⟩
  claimed_once := h.claimed_once

theorem Sound.claim (h : Sound sha256 m) {call : FanoutCall}
    {child : FanoutChild} (process : Nat) (hids : ∀ id ∈ m.store.ids, id ∈ store.ids)
    (hnew : child.childId ∉ m.store.ids) (hin : child.childId ∈ store.ids)
    (hplanned : call.Planned sha256) (hstage : call.stage = .claimed child) :
    Sound sha256 ({ m with store := store }.move process (some call)) := by
  have hcalls : ∀ p, ({ m with store := store }.move process (some call)).calls p =
      if p = process then some call else m.calls p := fun p => calls_move
  have hnone : ∀ p c other, m.calls p = some c → c.stage = .claimed other →
      other.childId ≠ child.childId := by
    intro p c other hc hclaimed heq
    exact hnew (heq ▸ (h.claimed p c other hc hclaimed).1)
  constructor
  · intro p c hc
    rw [hcalls] at hc
    split at hc
    · cases hc
      exact hplanned
    · exact h.planned p c hc
  · exact h.executed_planned
  · intro e he
    exact hids _ (h.executed_claimed e he)
  · exact h.executed_once
  · intro p c other hc hclaimed
    rw [hcalls] at hc
    split at hc
    · cases hc
      rw [hstage] at hclaimed
      cases hclaimed
      refine ⟨hin, ?_⟩
      intro hmem
      obtain ⟨e, he, heq⟩ := List.mem_map.mp hmem
      exact hnew (heq ▸ h.executed_claimed e he)
    · have hold := h.claimed p c other hc hclaimed
      exact ⟨hids _ hold.1, hold.2⟩
  · intro p c other q c' other' hc hclaimed hc' hclaimed' hid
    rw [hcalls] at hc hc'
    split at hc
    next hp =>
      cases hc
      rw [hstage] at hclaimed
      cases hclaimed
      split at hc'
      next hq => rw [hp, hq]
      next => exact absurd hid.symm (hnone q c' other' hc' hclaimed')
    next =>
      split at hc'
      next =>
        cases hc'
        rw [hstage] at hclaimed'
        cases hclaimed'
        exact absurd hid (hnone p c other hc hclaimed)
      next => exact h.claimed_once p c other q c' other' hc hclaimed hc' hclaimed' hid

theorem Sound.execute (h : Sound sha256 m) {call call' : FanoutCall} {child : FanoutChild}
    {process : Nat} (hcall : m.calls process = some call) (hclaimed : call.stage = .claimed child)
    (hplanned : call'.Planned sha256) (hstage : ∀ child, call'.stage ≠ .claimed child) :
    Sound sha256 ({ m with executed := m.executed ++ [(call.origin, child)] }.move process
      (some call')) := by
  have hcalls : ∀ p, ({ m with executed := m.executed ++ [(call.origin, child)] }.move process
      (some call')).calls p = if p = process then some call' else m.calls p := fun p => calls_move
  have hmine := h.claimed process call child hcall hclaimed
  constructor
  · intro p c hc
    rw [hcalls] at hc
    split at hc
    · cases hc
      exact hplanned
    · exact h.planned p c hc
  · intro e he
    rcases List.mem_append.mp he with he | he
    · exact h.executed_planned e he
    · rw [List.mem_singleton.mp he]
      have hold := h.planned process call hcall
      obtain ⟨now, hnow⟩ := hold.verified child (.inr hclaimed)
      exact ⟨call.plan, now, hold.plan, hnow⟩
  · intro e he
    rcases List.mem_append.mp he with he | he
    · exact h.executed_claimed e he
    · rw [List.mem_singleton.mp he]
      exact hmine.1
  · show ((m.executed ++ [(call.origin, child)]).map fun e => e.2.childId).Nodup
    rw [List.map_append, List.nodup_append]
    refine ⟨h.executed_once, by simp, ?_⟩
    intro id hid other hother heq
    rw [List.map_singleton, List.mem_singleton] at hother
    rw [heq, hother] at hid
    exact hmine.2 hid
  · intro p c other hc hother
    rw [hcalls] at hc
    split at hc
    next =>
      cases hc
      exact absurd hother (hstage other)
    next hp =>
      have hold := h.claimed p c other hc hother
      refine ⟨hold.1, ?_⟩
      intro hmem
      have hmem : other.childId ∈ (m.executed ++ [(call.origin, child)]).map
        fun e => e.2.childId := hmem
      rw [List.map_append, List.mem_append, List.map_singleton, List.mem_singleton] at hmem
      rcases hmem with hmem | hmem
      · exact hold.2 hmem
      · exact hp (h.claimed_once p c other process call child hc hother hcall hclaimed hmem)
  · intro p c other q c' other' hc hother hc' hother' hid
    rw [hcalls] at hc hc'
    split at hc
    · cases hc
      exact absurd hother (hstage other)
    · split at hc'
      · cases hc'
        exact absurd hother' (hstage other')
      · exact h.claimed_once p c other q c' other' hc hother hc' hother' hid

end FanoutSystem

theorem FanoutReplayStore.claim_cases (store : FanoutReplayStore) (child : FanoutChild)
    (failure : Option ClaimFailure) :
    (∀ id ∈ store.ids, id ∈ (store.claim child failure).2.ids) ∧
    ((store.claim child failure).1 = .ok () →
      child.childId ∉ store.ids ∧ child.childId ∈ (store.claim child failure).2.ids) := by
  have hinsert : ∀ store', store.insert child = some store' → child.childId ∉ store.ids ∧
      child.childId ∈ store'.ids ∧ ∀ id ∈ store.ids, id ∈ store'.ids := by
    intro store' h
    unfold insert at h
    split_ifs at h with hnew
    cases h
    refine ⟨hnew, by simp [ids], fun id hid => ?_⟩
    have hid : id ∈ store.rows.map Prod.fst := hid
    simp only [ids, List.map_append, List.mem_append, hid, true_or]
  have hkept : ∀ id ∈ store.ids, id ∈ store.ids := fun _ hid => hid
  cases failure with
  | none =>
    simp only [claim]
    cases h : store.insert child with
    | none => exact ⟨hkept, fun hok => by cases hok⟩
    | some store' => exact ⟨(hinsert _ h).2.2, fun _ => ⟨(hinsert _ h).1, (hinsert _ h).2.1⟩⟩
  | some failure =>
    cases failure with
    | lock message => exact ⟨hkept, fun hok => by cases hok⟩
    | insert message => exact ⟨hkept, fun hok => by cases hok⟩
    | checkpoint message =>
      simp only [claim]
      cases h : store.insert child with
      | none => exact ⟨hkept, fun hok => by cases hok⟩
      | some store' => exact ⟨(hinsert _ h).2.2, fun hok => by cases hok⟩

namespace FanoutSystem
variable {sha256 : Bytes → FixedBytes 32} {m : FanoutSystem}

theorem Sound.next (h : Sound sha256 m) (act : FanoutAct) : Sound sha256 (m.next sha256 act) := by
  cases act with
  | start process origin =>
    simp only [FanoutSystem.next]
    split
    next plan hcall hplan =>
      refine h.move process _ ?_ ?_
      · intro c hc
        cases hc
        exact ⟨hplan, fun child hstage => by rcases hstage with hstage | hstage <;> cases hstage⟩
      · intro c hc child hstage
        cases hc
        cases hstage
    next => exact h
  | verify process now =>
    simp only [FanoutSystem.next]
    split
    next origin plan child rest statuses hcall =>
      have hplan := (h.planned process _ hcall).plan
      split
      next =>
        refine h.move process _ ?_ ?_
        · intro c hc
          cases hc
          exact ⟨hplan, fun child hstage => by rcases hstage with hstage | hstage <;> cases hstage⟩
        · intro c hc child hstage
          cases hc
          cases hstage
      next hverify =>
        refine h.move process _ ?_ ?_
        · intro c hc
          cases hc
          refine ⟨hplan, fun other hstage => ?_⟩
          rcases hstage with hstage | hstage
          · cases hstage
            exact ⟨now, hverify⟩
          · cases hstage
        · intro c hc child hstage
          cases hc
          cases hstage
    next => exact h
  | claim process failure =>
    simp only [FanoutSystem.next]
    split
    next origin plan todo child statuses hcall =>
      have hplanned := h.planned process _ hcall
      have hcases := m.store.claim_cases child failure
      split
      next e store hclaim =>
        rw [hclaim] at hcases
        refine (h.grow hcases.1).move process _ ?_ ?_
        · intro c hc
          cases hc
          exact ⟨hplanned.plan, fun child hstage => by
            rcases hstage with hstage | hstage <;> cases hstage⟩
        · intro c hc child hstage
          cases hc
          cases hstage
      next store hclaim =>
        rw [hclaim] at hcases
        obtain ⟨hnew, hin⟩ := hcases.2 rfl
        refine h.claim process hcases.1 hnew hin ⟨hplanned.plan, fun other hstage => ?_⟩ rfl
        rcases hstage with hstage | hstage
        · cases hstage
        · cases hstage
          exact hplanned.verified child (.inl rfl)
    next => exact h
  | execute process result =>
    simp only [FanoutSystem.next]
    split
    next origin plan todo child statuses hcall =>
      refine h.execute hcall rfl ⟨(h.planned process _ hcall).plan, fun child hstage => ?_⟩ ?_
      · rcases hstage with hstage | hstage <;> cases hstage
      · intro child hstage
        cases hstage
    next => exact h
  | stop process =>
    refine h.move process none ?_ ?_
    · intro c hc
      cases hc
    · intro c hc
      cases hc

theorem Sound.run (h : Sound sha256 m) (acts : List FanoutAct) :
    Sound sha256 (run sha256 acts m) := by
  induction acts generalizing m with
  | nil => exact h
  | cons act acts ih => exact ih (h.next act)

/-- In every run the callback runs at most once for a plan's origin and an ordinal. The origin of a
plan is its parent, attempt and contents, for a dependent plan with the predecessor and its outcome;
and children of plans that were started carry one identifier only when they are the same child of
plans with the same origin. -/
theorem fanout_binding (sha256 : Bytes → FixedBytes 32) (store : FanoutReplayStore)
    (acts : List FanoutAct) :
    ((run sha256 acts (.initial store)).executed.Pairwise fun e e' =>
      ¬ (e.1 = e'.1 ∧ e.2.ordinal = e'.2.ordinal)) ∧
    ∀ (origin origin' : Origin) (plan plan' : FanoutPlan), origin.plan sha256 = .ok plan →
      origin'.plan sha256 = .ok plan' →
      Separates sha256 (origin.hashed sha256 ++ origin'.hashed sha256) →
      ∀ child ∈ plan.children, ∀ child' ∈ plan'.children, child.childId = child'.childId →
        origin = origin' ∧ child = child' := by
  constructor
  · have hsound := (Sound.initial store : Sound sha256 _).run acts
    have honce := List.pairwise_map.mp hsound.executed_once
    refine honce.imp_of_mem ?_
    intro e e' he he' hne hsame
    obtain ⟨plan, now, hplan, hverify⟩ := hsound.executed_planned e he
    obtain ⟨plan', now', hplan', hverify'⟩ := hsound.executed_planned e' he'
    rw [hsame.1, hplan'] at hplan
    cases hplan
    have hfirst := FanoutPlan.find_of_verifyChild hverify
    rw [hsame.2, FanoutPlan.find_of_verifyChild hverify'] at hfirst
    exact hne (congrArg FanoutChild.childId (Option.some.inj hfirst.symm))
  · intro origin origin' plan plan' hplan hplan' hsep child hchild child' hchild' hid
    exact Origin.eq_of_childId_eq hplan hplan' hchild hchild' hsep
      (fun m hm => List.mem_append_left _ hm) (fun m hm => List.mem_append_right _ hm) hid

def pullAndRun : Origin :=
  .derived (.fill 16 1) 7 (.fill 32 3) 1000 1
    [⟨"web", .imagePull, .fill 32 1, by decide⟩, ⟨"web", .containerRun, .fill 32 2, by decide⟩]

def runAfterPull : Except FanoutError Origin := do
  let plan ← pullAndRun.plan Sha256.sha256
  match plan.children with
  | pull :: _ => .ok (.dependent pullAndRun pull (.fill 32 4)
      ⟨"web", .containerRun, .fill 32 5, by decide⟩)
  | [] => .error .replay

theorem separates_of_nodup {messages : List Bytes}
    (h : (messages.map fun m => truncated (sha256 m)).Nodup) :
    Separates sha256 (messages ++ messages) := by
  intro m hm n hn heq
  have hm : m ∈ messages := by simpa using hm
  have hn : n ∈ messages := by simpa using hn
  exact List.inj_on_of_nodup_map h hm hn heq

theorem fanout_binding_runAfterPull :
    ∃ origin plan child, runAfterPull = .ok origin ∧ origin.plan Sha256.sha256 = .ok plan ∧
      child ∈ plan.children ∧
      Separates Sha256.sha256 (origin.hashed Sha256.sha256 ++ origin.hashed Sha256.sha256) ∧
      origin = origin ∧ child = child := by
  have hrun : (runAfterPull.toOption.any fun origin =>
      ((origin.plan Sha256.sha256).toOption.any fun plan => !plan.children.isEmpty) &&
      decide ((origin.hashed Sha256.sha256).map fun m =>
        truncated (Sha256.sha256 m)).Nodup) = true := by
    unfold runAfterPull
    rw [Sha256.sha256_eq_unrolled]
    decide +kernel
  cases horigin : runAfterPull with
  | error e =>
    rw [horigin] at hrun
    cases hrun
  | ok origin =>
    rw [horigin, Except.toOption, Option.any_some, Bool.and_eq_true, decide_eq_true_eq] at hrun
    cases hplan : origin.plan Sha256.sha256 with
    | error e =>
      rw [hplan] at hrun
      cases hrun.1
    | ok plan =>
      rw [hplan, Except.toOption, Option.any_some] at hrun
      obtain ⟨child, hchild⟩ := List.exists_mem_of_ne_nil plan.children (by simpa using hrun.1)
      have hsep := separates_of_nodup hrun.2
      exact ⟨origin, plan, child, rfl, hplan, hchild, hsep,
        (fanout_binding Sha256.sha256 ⟨[]⟩ []).2 origin origin plan plan hplan hplan hsep child
          hchild child hchild rfl⟩

end FanoutSystem

end Ferrocrate.Compose
