import Ferrocrate.Image.Executors
import Ferrocrate.Lib.Loops
import Ferrocrate.Lib.Runs
import Ferrocrate.Lib.Sha256

/-! Which rows the operations of any number of clients delete, and under which permits. -/
namespace Ferrocrate.Image
open Lib
open Authorization

def Moment.Effect (t t' : Tables) : Moment → Prop
  | .put record => t' = t ∨ t' = t.put record
  | .remove reference digest => t' = t ∨ t' = (t.removeReferenceIfDigest reference digest).2
  | .deleteDigest plan => t' = t ∨ ∃ removed, t.deleteDigest plan = .ok (removed, t')
  | .prune selected => t' = t ∨ t' = (t.prune (selected.map (·.reference))).2
  | .read | .finish _ _ => t' = t

inductive Call where
  | putReference (record : ImageRecord)
  | removeReference (reference digest : String) (permit : SurfacePermit)
  | prepareDigestDelete (digest : String) (force : Bool)
  | executeDigestDelete (plan : ImageDeletePlan) (permits : List SurfacePermit)
  | pruneReferences (permits : List SurfacePermit) (selectedReferences : List String)

def Call.permits : Call → List SurfacePermit
  | .putReference _ | .prepareDigestDelete _ _ => []
  | .removeReference _ _ permit => [permit]
  | .executeDigestDelete _ permits | .pruneReferences permits _ => permits

section Clients
variable (sha256 : Bytes → Witness.Digest)

def silent {α : Type} (task : ImageTask α) : Process ImageWorld Moment Unit :=
  task.run.bind fun _ => .done ()

def Call.process : Call → Process ImageWorld Moment Unit
  | .putReference record => silent (Image.putReference record)
  | .removeReference reference digest permit =>
    silent (removeReferenceAuthorized sha256 reference digest permit)
  | .prepareDigestDelete digest force => silent (read fun t => t.prepareDigestDelete digest force)
  | .executeDigestDelete plan permits => silent (executeDigestDeleteAuthorized sha256 plan permits)
  | .pruneReferences permits selected => silent (pruneReferencesAuthorized sha256 permits selected)

def AuthorisesDelete (permit : SurfacePermit) (reference digest : String) : Prop :=
  permit.proof.action = .imageDelete ∧ permit.proof.kind = .image ∧
  permit.proof.resourceId = stableResourceId sha256 .image reference ∧
  permit.proof.resourceGeneration = 1 ∧ permit.proof.imageDigest = some digest

def Authorised (permits : List SurfacePermit) (reference digest : String) : Prop :=
  ∃ permit ∈ permits, AuthorisesDelete sha256 permit reference digest

def Moment.Covered (permits : List SurfacePermit) : Moment → Prop
  | .remove reference digest => Authorised sha256 permits reference digest
  | .deleteDigest plan => ∀ reference ∈ plan.references,
      Authorised sha256 permits reference plan.digest
  | .prune selected => ∀ record ∈ selected, Authorised sha256 permits record.reference record.digest
  | .read | .put _ | .finish _ _ => True

def Proper (permits : List SurfacePermit) (label : Moment) (update : ImageWorld → ImageWorld) :
    Prop :=
  (∀ w, label.Effect w.store (update w).store) ∧ label.Covered sha256 permits

variable {sha256} {permits : List SurfacePermit}

theorem checkImageDelete_ok {message reference digest : String} {permit : SurfacePermit}
    (h : checkImageDelete sha256 message reference digest permit = .ok ()) :
    AuthorisesDelete sha256 permit reference digest := by
  obtain ⟨_, hcheck, h⟩ := Except.bind_eq_ok.mp h
  have hdigest : permit.proof.imageDigest = some digest := by
    by_contra hne
    rw [if_pos hne] at h
    cases h
  have hvalid : validateExecution sha256 permit .imageDelete .image reference 1 = .ok () := by
    rw [executionCheck] at hcheck
    cases hv : validateExecution sha256 permit .imageDelete .image reference 1 with
    | error e =>
      rw [hv] at hcheck
      cases hcheck
    | ok u => rfl
  obtain ⟨haction, hkind, hid, hgeneration⟩ := (validateExecution_ok_iff ..).mp hvalid
  exact ⟨haction, hkind, hid, hgeneration, hdigest⟩

theorem locked_store {α : Type} (f : Tables → Except ImageStoreError (α × Tables))
    (w : ImageWorld) :
    (PermitWorld.locked f w).2.store = w.store ∨
      ∃ a, f w.store = .ok (a, (PermitWorld.locked f w).2.store) := by
  unfold PermitWorld.locked
  cases w.faults.head?.join with
  | some e => exact .inl rfl
  | none =>
    cases hf : f w.store with
    | error e => exact .inl rfl
    | ok r => exact .inr ⟨r.1, rfl⟩

theorem finished_store {δ : Type} (permit : SurfacePermit) (outcome : Witness.WitnessOutcome)
    (cause : SurfaceAuthorizationError → δ) (w : ImageWorld) :
    (PermitWorld.finished sha256 cause permit outcome w).2.store = w.store := by
  unfold PermitWorld.finished
  split <;> rfl

theorem acts_finishAs (permit : SurfacePermit) (outcome : Witness.WitnessOutcome) :
    Process.Acts (Proper sha256 permits) (finishAs sha256 permit outcome).run :=
  Task.acts_atomically ⟨fun w => finished_store permit outcome _ w, trivial⟩

theorem acts_read {α : Type} (f : Tables → Except ImageStoreError α) :
    Process.Acts (Proper sha256 permits) (read f).run := by
  refine Task.acts_atomically ⟨fun w => ?_, trivial⟩
  obtain h | ⟨a, h⟩ := locked_store (fun t => (f t).map fun a => (a, t)) w
  · exact h
  · cases hf : f w.store with
    | error e =>
      rw [hf] at h
      cases h
    | ok b =>
      rw [hf] at h
      exact (congrArg Prod.snd (Except.ok.inj h)).symm

theorem acts_finishImageDeletePermits (ps : List SurfacePermit) (succeeded : Bool) :
    Process.Acts (Proper sha256 permits) (finishImageDeletePermits sha256 ps succeeded).run := by
  refine Task.acts_bind (Task.acts_mapM fun p => Task.acts_attempt (acts_finishAs p _)) fun results => ?_
  dsimp only
  split
  · trivial
  · trivial

theorem acts_putReference (record : ImageRecord) :
    Process.Acts (Proper sha256 permits) (putReference record).run := by
  refine Task.acts_atomically ⟨fun w => ?_, trivial⟩
  obtain h | ⟨a, h⟩ := locked_store (fun t => .ok ((), t.put record)) w
  · exact .inl h
  · exact .inr (congrArg Prod.snd (Except.ok.inj h)).symm

theorem acts_removeReference {reference digest : String}
    (h : Authorised sha256 permits reference digest) :
    Process.Acts (Proper sha256 permits) (removeReferenceIfDigest reference digest).run := by
  refine Task.acts_atomically ⟨fun w => ?_, h⟩
  obtain h | ⟨a, h⟩ := locked_store (fun t => .ok (t.removeReferenceIfDigest reference digest)) w
  · exact .inl h
  · exact .inr (congrArg Prod.snd (Except.ok.inj h)).symm

theorem acts_removeReferenceAuthorized (reference digest : String) (permit : SurfacePermit) :
    Process.Acts (Proper sha256 [permit])
      (removeReferenceAuthorized sha256 reference digest permit).run := by
  refine Task.acts_ofExcept_bind fun _ hcheck => ?_
  have hcovered : Authorised sha256 [permit] reference digest :=
    ⟨permit, List.mem_singleton_self permit, checkImageDelete_ok hcheck⟩
  refine Task.acts_bind (Task.acts_attempt (acts_removeReference hcovered)) fun result => ?_
  cases result with
  | ok removed => exact Task.acts_bind (acts_finishAs _ _) fun _ => trivial
  | error e => exact Task.acts_bind (acts_finishAs _ _) fun _ => trivial

theorem forM_zip_ok {α β ε : Type} {xs : List α} {ys : List β} {f : α × β → Except ε Unit}
    (hlength : xs.length = ys.length) (h : (xs.zip ys).forM f = .ok ()) {x : α} (hx : x ∈ xs) :
    ∃ y ∈ ys, f (x, y) = .ok () := by
  obtain ⟨i, hi, rfl⟩ := List.mem_iff_getElem.mp hx
  have hi' : i < ys.length := hlength ▸ hi
  have hmem : (xs[i], ys[i]) ∈ xs.zip ys := by
    rw [← List.getElem_zip (h := by rw [List.length_zip]; omega)]
    exact List.getElem_mem _
  exact ⟨_, List.getElem_mem _, Except.forM_eq_ok h _ hmem⟩

theorem acts_deleteDigest {plan : ImageDeletePlan}
    (h : ∀ reference ∈ plan.references, Authorised sha256 permits reference plan.digest) :
    Process.Acts (Proper sha256 permits) (Task.atomically (Moment.deleteDigest plan)
      (PermitWorld.locked fun t => t.deleteDigest plan)).run := by
  refine Task.acts_atomically ⟨fun w => ?_, h⟩
  obtain h | ⟨a, h⟩ := locked_store (fun t => t.deleteDigest plan) w
  · exact .inl h
  · exact .inr ⟨a, h⟩

theorem acts_executeDigestDeleteAuthorized (plan : ImageDeletePlan) (permits : List SurfacePermit) :
    Process.Acts (Proper sha256 permits)
      (executeDigestDeleteAuthorized sha256 plan permits).run := by
  have hfinish : ∀ succeeded, Process.Acts (Proper sha256 permits)
      (finishImageDeletePermits sha256 permits succeeded).run :=
    acts_finishImageDeletePermits permits
  rw [executeDigestDeleteAuthorized]
  by_cases hempty : plan.references = []
  · rw [if_pos hempty]
    exact Task.acts_bind (hfinish false) fun _ => trivial
  rw [if_neg hempty]
  by_cases hlength : plan.references.length = permits.length
  swap
  · rw [if_pos hlength]
    exact Task.acts_bind (hfinish false) fun _ => trivial
  rw [if_neg (not_not.mpr hlength)]
  dsimp only
  split
  · exact Task.acts_bind (hfinish false) fun _ => trivial
  next hvalidation =>
    have hcovered : ∀ reference ∈ plan.references,
        Authorised sha256 permits reference plan.digest := by
      intro reference hreference
      obtain ⟨permit, hpermit, hcheck⟩ := forM_zip_ok hlength hvalidation hreference
      exact ⟨permit, hpermit, checkImageDelete_ok hcheck⟩
    refine Task.acts_bind (Task.acts_attempt (acts_deleteDigest hcovered)) fun result => ?_
    cases result with
    | ok removed => exact Task.acts_bind (hfinish true) fun _ => trivial
    | error e => exact Task.acts_bind (hfinish false) fun _ => trivial

theorem selectPrune_ok {records selected : List ImageRecord} {selectedReferences : List String}
    (h : selectPrune sha256 records permits selectedReferences = .ok selected) :
    ∀ record ∈ selected, Authorised sha256 permits record.reference record.digest := by
  rw [selectPrune] at h
  split at h
  · cases h
  intro record hrecord
  obtain ⟨⟨reference, permit⟩, hpair, hselect⟩ := Except.exists_of_mem_mapM h hrecord
  refine ⟨permit, (List.of_mem_zip hpair).2, ?_⟩
  cases hfind : records.find? fun record => record.reference = reference with
  | none =>
    simp only [hfind] at hselect
    cases hselect
  | some found =>
    simp only [hfind] at hselect
    obtain ⟨_, hcheck, hreturn⟩ := Except.bind_eq_ok.mp hselect
    obtain rfl := Except.ok.inj hreturn
    exact checkImageDelete_ok hcheck

theorem acts_pruneReferencesAuthorized (permits : List SurfacePermit)
    (selectedReferences : List String) :
    Process.Acts (Proper sha256 permits)
      (pruneReferencesAuthorized sha256 permits selectedReferences).run := by
  refine Task.acts_bind (acts_read _) fun records => Task.acts_ofExcept_bind fun selected hselected => ?_
  have hcovered := selectPrune_ok hselected
  split
  · trivial
  refine Task.acts_bind (Task.acts_attempt (Task.acts_atomically ⟨fun w => ?_, hcovered⟩)) fun result => ?_
  · obtain h | ⟨a, h⟩ := locked_store
      (fun t => .ok (t.prune (selected.map (·.reference)))) w
    · exact .inl h
    · exact .inr (congrArg Prod.snd (Except.ok.inj h)).symm
  cases result with
  | ok removed => exact Task.acts_bind (Task.acts_forM fun p => acts_finishAs p _) fun _ => trivial
  | error e => exact Task.acts_bind (Task.acts_forM fun p => acts_finishAs p _) fun _ => trivial

theorem Call.acts (call : Call) :
    Process.Acts (Proper sha256 call.permits) (call.process sha256) := by
  cases call with
  | putReference record => exact Process.Acts.bind (acts_putReference record) fun _ => trivial
  | removeReference reference digest permit =>
    exact Process.Acts.bind (acts_removeReferenceAuthorized reference digest permit) fun _ => trivial
  | prepareDigestDelete digest force => exact Process.Acts.bind (acts_read _) fun _ => trivial
  | executeDigestDelete plan permits =>
    exact Process.Acts.bind (acts_executeDigestDeleteAuthorized plan permits) fun _ => trivial
  | pruneReferences permits selected =>
    exact Process.Acts.bind (acts_pruneReferencesAuthorized permits selected) fun _ => trivial

end Clients

/-! Any number of clients of one store, each somewhere in its call. -/

structure Clients where
  world : ImageWorld
  threads : List (Call × Process ImageWorld Moment Unit)

def Clients.initial (world : ImageWorld) : Clients := ⟨world, []⟩

def Clients.tables (c : Clients) : Tables := c.world.store

inductive Turn where
  | start (call : Call)
  | step (thread : Nat)

def Clients.next (sha256 : Bytes → Witness.Digest) (c : Clients) : Turn → Clients
  | .start call => { c with threads := c.threads ++ [(call, call.process sha256)] }
  | .step thread =>
    match c.threads[thread]? with
    | none => c
    | some (call, p) =>
      ⟨(p.advance c.world).2, c.threads.set thread (call, (p.advance c.world).1)⟩

section Runs
variable (sha256 : Bytes → Witness.Digest)

def DeletesAuthorised (c : Clients) (turn : Turn) : Prop :=
  ∀ reference row, c.tables.imageReferences.get reference = some row →
    (c.next sha256 turn).tables.imageReferences.get reference = none →
    ∃ thread call p, turn = .step thread ∧ c.threads[thread]? = some (call, p) ∧
      Authorised sha256 call.permits reference row.digest

def Clients.pruning (c : Clients) : Turn → List ImageRecord
  | .start _ => []
  | .step thread =>
    match c.threads[thread]?.bind fun thread => thread.2.label? with
    | some (.prune selected) => selected
    | _ => []

def Unmoved (c : Clients) (turn : Turn) : Prop :=
  ∀ record ∈ c.pruning turn,
    (c.tables.imageReferences.get record.reference).all (·.digest = record.digest) = true

instance (c : Clients) (turn : Turn) : Decidable (Unmoved c turn) :=
  inferInstanceAs (Decidable (∀ record ∈ c.pruning turn,
    (c.tables.imageReferences.get record.reference).all (·.digest = record.digest) = true))

def Behaved (c : Clients) : Prop :=
  ∀ thread ∈ c.threads, Process.Acts (Proper sha256 thread.1.permits) thread.2

variable {sha256} {c : Clients} {t t' : Tables}

theorem Behaved.next (h : Behaved sha256 c) (turn : Turn) : Behaved sha256 (c.next sha256 turn) := by
  cases turn with
  | start call =>
    intro thread hthread
    rcases List.mem_append.mp hthread with hthread | hthread
    · exact h thread hthread
    · rw [List.mem_singleton.mp hthread]
      exact call.acts
  | step i =>
    rw [Clients.next]
    cases hi : c.threads[i]? with
    | none => exact h
    | some thread =>
      have hbehaved := h thread (List.mem_of_getElem? hi)
      intro thread' hthread'
      rcases List.mem_or_eq_of_mem_set hthread' with hthread' | rfl
      · exact h thread' hthread'
      · exact hbehaved.advance c.world

theorem behaved_initial (world : ImageWorld) : Behaved sha256 (.initial world) := by
  intro thread hthread
  cases hthread

theorem Behaved.cases (h : Behaved sha256 c) (turn : Turn) :
    (c.next sha256 turn).tables = c.tables ∨
    ∃ thread call p label, turn = .step thread ∧ c.threads[thread]? = some (call, p) ∧
      p.label? = some label ∧ label.Effect c.tables (c.next sha256 turn).tables ∧
      label.Covered sha256 call.permits := by
  cases turn with
  | start call => exact .inl rfl
  | step i =>
    rw [Clients.next]
    cases hi : c.threads[i]? with
    | none => exact .inl rfl
    | some thread =>
      obtain ⟨call, p⟩ := thread
      have hbehaved := h _ (List.mem_of_getElem? hi)
      cases hlabel : p.label? with
      | none =>
        cases p with
        | done a => exact .inl rfl
        | act l update next => cases hlabel
      | some label =>
        obtain ⟨update, ⟨heffect, hcovered⟩, hupdate⟩ := hbehaved.update hlabel c.world
        refine .inr ⟨i, call, p, label, rfl, hi, hlabel, ?_, hcovered⟩
        have hstore : (p.advance c.world).2 = update c.world := hupdate
        show label.Effect c.world.store (p.advance c.world).2.store
        rw [hstore]
        exact heffect c.world

theorem Behaved.deletesAuthorised (h : Behaved sha256 c) {turn : Turn} (hu : Unmoved c turn) :
    DeletesAuthorised sha256 c turn := by
  intro reference row hget hgone
  obtain hsame | ⟨thread, call, p, label, rfl, hthread, hlabel, heffect, hcovered⟩ := h.cases turn
  · rw [hsame, hget] at hgone
    cases hgone
  refine ⟨thread, call, p, rfl, hthread, ?_⟩
  have hne : (c.next sha256 (.step thread)).tables ≠ c.tables := by
    intro hsame
    rw [hsame, hget] at hgone
    cases hgone
  cases label with
  | read => exact absurd heffect hne
  | finish permit outcome => exact absurd heffect hne
  | put record =>
    rw [heffect.resolve_left hne, Tables.put, OrdMap.get_insert] at hgone
    split at hgone
    · cases hgone
    · rw [hget] at hgone
      cases hgone
  | remove r digest =>
    rw [heffect.resolve_left hne, Tables.get_removeReferenceIfDigest] at hgone
    split at hgone
    next heq =>
      rw [hget, Option.filter_eq_none_iff] at hgone
      have hdigest : row.digest = digest := by simpa using hgone row rfl
      rw [heq, hdigest]
      exact hcovered
    next =>
      rw [hget] at hgone
      cases hgone
  | deleteDigest plan =>
    obtain ⟨removed, hdelete⟩ := heffect.resolve_left hne
    obtain ⟨hplanned, hreferences, -⟩ := Tables.deleteDigest_ok hdelete
    rw [hreferences, hget, Option.filter_eq_none_iff] at hgone
    have hdigest : row.digest = plan.digest := by simpa using hgone row rfl
    rw [hdigest]
    exact hcovered reference (hplanned ▸ Tables.mem_referencesOf.mpr ⟨row, hget, hdigest⟩)
  | prune selected =>
    rw [heffect.resolve_left hne, Tables.get_prune] at hgone
    split at hgone
    next hmem =>
      obtain ⟨record, hrecord, rfl⟩ := List.mem_map.mp hmem
      have hpruning : c.pruning (.step thread) = selected := by
        simp [Clients.pruning, hthread, hlabel]
      have hdigest : row.digest = record.digest := by
        simpa [hget] using hu record (hpruning ▸ hrecord)
      rw [hdigest]
      exact hcovered record hrecord
    next =>
      rw [hget] at hgone
      cases hgone

/-- In every run in which no prune finds a selected reference moved to another digest, every row
that goes was authorised. -/
theorem deletions_authorised (sha256 : Bytes → Witness.Digest) (world : ImageWorld)
    (turns : List Turn)
    (hu : Runs.Along (Clients.next sha256) Unmoved (.initial world) turns) :
    Runs.Along (Clients.next sha256) (DeletesAuthorised sha256) (.initial world) turns := by
  have hb : Runs.Throughout (Clients.next sha256) (Behaved sha256) (.initial world) turns :=
    Runs.throughout_of_step (fun _ turn h => h.next turn) (behaved_initial world)
  exact hb.along (fun _ _ hu h _ => h.deletesAuthorised hu) hu

end Runs

/-! A tag is moved between the listing of a prune and its deletion. -/

def deletePermit (reference digest : String) : SurfacePermit where
  proof := ⟨.imageDelete, .image, stableResourceId Sha256.sha256 .image reference, 1,
    some digest, none⟩
  durability := .disabled
  operation := .zero 16
  decisionId := none
  template := Witness.plainRecord (.zero 16) (.zero 16) .requestReceived

def storeOf (records : List ImageRecord) : ImageWorld :=
  ⟨records.foldl Tables.put .empty, .create (.new (.zero 16) .required) ∅, []⟩

def tagged (digest : String) : ImageRecord := ⟨"app:1", digest, "m", "{}", 7⟩

def movedTag : List Turn :=
  [.start (.pruneReferences [deletePermit "app:1" "sha256:aa"] ["app:1"]), .step 0,
    .start (.putReference (tagged "sha256:bb")), .step 1, .step 0]

theorem moved_tag_deleted_unauthorised :
    ¬ Runs.Along (Clients.next Sha256.sha256) (DeletesAuthorised Sha256.sha256)
      (.initial (storeOf [tagged "sha256:aa"])) movedTag := by
  intro h
  have hlast := h.2.2.2.2.1
  have hmoved : (((movedTag.take 4).foldl (Clients.next Sha256.sha256)
      (.initial (storeOf [tagged "sha256:aa"]))).tables.imageReferences.get "app:1")
        = some (tagged "sha256:bb").row := by decide +kernel
  have hgone : ((movedTag.foldl (Clients.next Sha256.sha256)
      (.initial (storeOf [tagged "sha256:aa"]))).tables.imageReferences.get "app:1") = none := by
    decide +kernel
  have hpermits : (((movedTag.take 4).foldl (Clients.next Sha256.sha256)
      (.initial (storeOf [tagged "sha256:aa"]))).threads[0]?.map fun thread =>
        thread.1.permits.map (·.proof.imageDigest)) = some [some "sha256:aa"] := by decide +kernel
  obtain ⟨thread, call, p, hturn, hthread, permit, hpermit, -, -, -, -, hdigest⟩ :=
    hlast "app:1" _ hmoved hgone
  cases hturn
  have hcall : call.permits.map (·.proof.imageDigest) = [some "sha256:aa"] := by
    have hsome := congrArg (Option.map fun thread : Call × _ =>
      thread.1.permits.map (·.proof.imageDigest)) hthread
    exact Option.some.inj (hsome.symm.trans hpermits)
  have hmem : permit.proof.imageDigest ∈ [some "sha256:aa"] :=
    hcall ▸ List.mem_map_of_mem hpermit
  rw [hdigest] at hmem
  revert hmem
  decide

theorem deletions_authorised_unmoved :
    Runs.Along (Clients.next Sha256.sha256) (DeletesAuthorised Sha256.sha256)
      (.initial (storeOf [tagged "sha256:aa"]))
      [.start (.pruneReferences [deletePermit "app:1" "sha256:aa"] ["app:1"]), .step 0,
        .start (.putReference (tagged "sha256:aa")), .step 1, .step 0] :=
  deletions_authorised Sha256.sha256 _ _ (by decide +kernel)

end Ferrocrate.Image
