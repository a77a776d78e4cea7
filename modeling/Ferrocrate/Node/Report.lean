import Ferrocrate.Node.Catalog
import Ferrocrate.Node.NodeRun

/-! What a pass reports and what the journal says. Every mutation follows the record of its intent,
and what is reported is on record with its outcome, unless the start of an update is passed over
when the journal fails. -/
namespace Ferrocrate.Node
open Lib
open Lib.Program

def Documented (events : List NodeEvent) (action : MutationAction) (id : String) : Prop :=
  ∃ later earlier intent instances seq outcome,
    events = later ++ .recorded (.outcome outcome) :: .mutated intent true instances ::
      .recorded (.intent (intent.record seq)) :: earlier ∧
    intent.action = action ∧ intent.instanceId = id ∧ outcome.seq = seq ∧ outcome.ok = true

variable {events : List NodeEvent} {id : String} {action : MutationAction}

theorem Documented.append
    (hd : Documented events action id) (later : List NodeEvent) :
    Documented (later ++ events) action id := by
  obtain ⟨later', earlier, intent, instances, seq, outcome, hevents, hrest⟩ := hd
  exact ⟨later ++ later', earlier, intent, instances, seq, outcome,
    by rw [hevents, List.append_assoc], hrest⟩

def Preceded : List NodeEvent → Prop
  | [] => True
  | .mutated intent _ _ :: earlier =>
    (∃ seq rest, earlier = .recorded (.intent (intent.record seq)) :: rest) ∧ Preceded earlier
  | .recorded _ :: earlier => Preceded earlier
  | .journalFailed _ :: earlier => Preceded earlier

theorem Preceded.notes (hp : Preceded events) {notes : List NodeEvent}
    (hnotes : ∀ e ∈ notes, e.IsNote) : Preceded (notes ++ events) := by
  induction notes with
  | nil => exact hp
  | cons e notes ih =>
    have hrest := ih fun e he => hnotes e (by simp [he])
    have hnote := hnotes e (by simp)
    cases e with
    | recorded _ => exact hrest
    | journalFailed _ => exact hrest
    | mutated _ _ _ => exact hnote.elim

def RecordingExecutor.Keyed (e : RecordingExecutor) : Prop :=
  ∀ id view, e.instances.get id = some view → view.instanceId = id

structure Effected (h₀ h : NodeHost) : Prop where
  events : ∃ events, h.trace = events ++ h₀.trace ∧ Preceded events ∧
    h.lines = h₀.lines ++ linesOf events
  keyed : h₀.executor.Keyed → h.executor.Keyed

variable {sz : NodeSizes} {h h' h₀ : NodeHost} {now : Int64} {intent : MutationIntent}
  {started stopped : List String}

theorem Effected.refl (h : NodeHost) : Effected h h :=
  ⟨⟨[], rfl, trivial, by simp [linesOf]⟩, fun hkeyed => hkeyed⟩

theorem Effected.noted (he : Effected h₀ h) (hnoted : Noted h h') : Effected h₀ h' := by
  obtain ⟨events, htrace, hpreceded, hlines⟩ := he.events
  obtain ⟨notes, hnotes, htrace', hlines'⟩ := hnoted.trace
  refine ⟨⟨notes ++ events, ?_, hpreceded.notes hnotes, ?_⟩, hnoted.executor ▸ he.keyed⟩
  · rw [htrace', htrace, List.append_assoc]
  · rw [hlines', hlines, linesOf_append, List.append_assoc]

theorem RecordingExecutor.Keyed.mutate {e : RecordingExecutor} (hkeyed : e.Keyed)
    (intent : MutationIntent) : (e.mutate intent).2.Keyed := by
  intro id view hget
  rcases mutate_cases e intent with ⟨_, -, hsame⟩ | ⟨-, -, hinsert⟩ | ⟨-, -, herase⟩
  · exact hkeyed id view (hsame ▸ hget)
  · rw [hinsert, OrdMap.get_insert] at hget
    split at hget
    · next hid =>
      cases hget
      exact hid.symm
    · exact hkeyed id view hget
  · rw [herase, OrdMap.get_erase] at hget
    split at hget
    · cases hget
    · exact hkeyed id view hget

theorem Effected.performed (he : Effected h₀ h) (seq : UInt64) :
    Effected h₀ ((h.announced intent seq).performed intent) := by
  obtain ⟨events, htrace, hpreceded, hlines⟩ := he.events
  refine ⟨⟨.mutated intent (h.executor.mutate intent).1.isOk (h.executor.mutate intent).2.instances ::
    .recorded (.intent (intent.record seq)) :: events, ?_, ⟨⟨seq, events, rfl⟩, hpreceded⟩, ?_⟩,
    fun hkeyed => (he.keyed hkeyed).mutate intent⟩
  · show _ :: .recorded _ :: h.trace = _
    rw [htrace]
    rfl
  · show h.lines ++ [.intent (intent.record seq)] = _
    rw [hlines, List.append_assoc]
    simp [linesOf, NodeEvent.line?]

def JournalHeld (h₀ h : NodeHost) : Prop := ∀ error, .journalFailed error ∉ eventsSince h₀ h

structure Told (h₀ : NodeHost) (started stopped : List String) (h : NodeHost) : Prop where
  since : Effected h₀ h
  started : JournalHeld h₀ h → ∀ id ∈ started, Documented (eventsSince h₀ h) .start id
  stopped : ∀ id ∈ stopped, Documented (eventsSince h₀ h) .stop id

theorem eventsSince_append (hsince : Effected h₀ h) (htrace : h'.trace = events ++ h.trace) :
    eventsSince h₀ h' = events ++ eventsSince h₀ h := by
  obtain ⟨earlier, hearlier, -⟩ := hsince.events
  have hall : h'.trace = (events ++ earlier) ++ h₀.trace := by
    rw [htrace, hearlier, List.append_assoc]
  rw [eventsSince_eq hearlier, eventsSince_eq hall]

theorem Told.grow (ht : Told h₀ started stopped h) (hsince : Effected h₀ h')
    (hgrow : ∃ events, h'.trace = events ++ h.trace) : Told h₀ started stopped h' := by
  obtain ⟨events, htrace⟩ := hgrow
  have hevents := eventsSince_append ht.since htrace
  refine ⟨hsince, fun hheld id hid => ?_, fun id hid => ?_⟩
  · rw [hevents]
    refine (ht.started (fun error herror => hheld error ?_) id hid).append events
    rw [hevents]
    exact List.mem_append_right _ herror
  · rw [hevents]
    exact (ht.stopped id hid).append events

theorem Told.noted (ht : Told h₀ started stopped h) (hnoted : Noted h h') :
    Told h₀ started stopped h' := by
  obtain ⟨notes, -, htrace, -⟩ := hnoted.trace
  exact ht.grow (ht.since.noted hnoted) ⟨notes, htrace⟩

theorem documented_done (hok : (h.executor.mutate intent).1 = .ok ()) (seq : UInt64)
    (hsince : Effected h₀ h) :
    Documented (eventsSince h₀ (((h.announced intent seq).performed intent).wrote
      (.outcome ⟨seq, true, "applied", intent.issuedUnix⟩))) intent.action intent.instanceId := by
  have htrace : (((h.announced intent seq).performed intent).wrote
      (.outcome ⟨seq, true, "applied", intent.issuedUnix⟩)).trace
        = [.recorded (.outcome ⟨seq, true, "applied", intent.issuedUnix⟩),
          .mutated intent true (h.executor.mutate intent).2.instances,
          .recorded (.intent (intent.record seq))] ++ h.trace := by
    have hresult : ((h.announced intent seq).executor.mutate intent).1.isOk = true := by
      show (h.executor.mutate intent).1.isOk = true
      rw [hok]
      rfl
    show _ :: NodeEvent.mutated intent ((h.announced intent seq).executor.mutate intent).1.isOk _ :: _
      = _
    rw [hresult]
    rfl
  rw [eventsSince_append hsince htrace]
  exact ⟨[], eventsSince h₀ h, intent, _, seq, _, rfl, rfl, rfl, rfl, rfl⟩

theorem wp_apply_told (ht : Told h₀ started stopped h) :
    wp (intent.apply sz) (fun _ h' => Told h₀ started stopped h' ∧
        Documented (eventsSince h₀ h') intent.action intent.instanceId)
      (fun e h' => Told h₀ started stopped h' ∧ e.OfMutation h h') h := by
  refine wp_apply (fun e h' hnoted hof => ⟨ht.noted hnoted, hof⟩) (fun seq e h' hnoted hof => ?_)
    fun hok seq => ?_
  · refine ⟨Told.noted ?_ hnoted, hof⟩
    exact ht.grow (ht.since.performed seq) ⟨[_, _], rfl⟩
  · exact ⟨ht.grow ((ht.since.performed seq).noted (noted_wrote ..)) ⟨[_, _, _], rfl⟩,
      documented_done hok seq ht.since⟩

theorem wp_start_told {id service image : String} {revision : UInt64}
    (ht : Told h₀ started stopped h) :
    wp (MutationIntent.apply sz ⟨.start, id, service, image, revision, now⟩)
      (fun _ => Told h₀ (started ++ [id]) stopped)
      (fun e h' => Told h₀ started stopped h' ∧ e.OfMutation h h') h := by
  refine wp_mono (wp_apply_told ht) ?_ fun _ _ h => h
  rintro _ h' ⟨ht', hd⟩
  refine ⟨ht'.since, fun hheld id' hid => ?_, ht'.stopped⟩
  rcases List.mem_append.mp hid with hid | hid
  · exact ht'.started hheld id' hid
  · exact List.mem_singleton.mp hid ▸ hd

theorem wp_stop_told (hstop : intent.action = .stop) (ht : Told h₀ started stopped h) :
    wp (intent.apply sz) (fun _ => Told h₀ started (stopped ++ [intent.instanceId]))
      (fun _ => Effected h₀) h := by
  refine wp_mono (wp_apply_told ht) ?_ fun _ _ he => he.1.since
  rintro _ h' ⟨ht', hd⟩
  refine ⟨ht'.since, ht'.started, fun id' hid => ?_⟩
  rcases List.mem_append.mp hid with hid | hid
  · exact ht'.stopped id' hid
  · rw [List.mem_singleton.mp hid, ← hstop]
    exact hd

theorem Told.less {started' stopped' : List String} (ht : Told h₀ started' stopped' h)
    (hstarted : started ⊆ started') (hstopped : stopped ⊆ stopped') :
    Told h₀ started stopped h :=
  ⟨ht.since, fun hheld id hid => ht.started hheld id (hstarted hid),
    fun id hid => ht.stopped id (hstopped hid)⟩

theorem Told.fewerStarts {started' : List String} (ht : Told h₀ (started ++ started') stopped h) :
    Told h₀ started stopped h :=
  ht.less (List.subset_append_left _ _) (List.Subset.refl _)

theorem told_of_failed (ht : Told h₀ started stopped h') {error : JournalError}
    (hsince : Effected h₀ h)
    (hfailed : ∃ events, h'.trace = .journalFailed error :: events ++ h.trace) :
    Told h₀ (started ++ [id]) stopped h' := by
  refine ⟨ht.since, fun hheld => ?_, ht.stopped⟩
  obtain ⟨events, htrace⟩ := hfailed
  refine absurd ?_ (hheld error)
  rw [eventsSince_append hsince htrace]
  simp

section Told
variable {spec : ServiceSpec} {revision : UInt64} {ids : List String}

theorem wp_startStep_told (ht : Told h₀ started stopped h) :
    wp (startStep sz spec revision now ids) (fun refusal h' =>
      (refusal = none → Told h₀ (started ++ ids) stopped h') ∧ Told h₀ started stopped h')
      (fun _ => Effected h₀) h := by
  induction ids generalizing h started with
  | nil => exact (wp_pure _ _ _ _).mpr ⟨fun _ => by rwa [List.append_nil], ht⟩
  | cons id ids ih =>
    rw [startStep, wp_bind, wp_attempt, applyMutation_eq]
    have hrest (h' : NodeHost) (ht' : Told h₀ (started ++ [id]) stopped h')
        (hback : Told h₀ started stopped h') :
        wp (startStep sz spec revision now ids) (fun refusal h'' =>
          (refusal = none → Told h₀ (started ++ id :: ids) stopped h'') ∧
            Told h₀ started stopped h'') (fun _ => Effected h₀) h' := by
      refine wp_mono (ih ht') (fun refusal h'' h => ⟨fun hnone => ?_, ?_⟩) fun _ _ he => he
      · simpa using h.1 hnone
      · exact h.2.fewerStarts
    refine wp_mono (wp_start_told ht) ?_ ?_
    · intro _ h' ht'
      exact hrest h' ht' ht'.fewerStarts
    · rintro e h' ⟨ht', hof⟩
      cases e with
      | crash point => exact (wp_throw _ _ _ _).mpr ht'.since
      | error e =>
        cases e with
        | executor detail => exact (wp_pure _ _ _ _).mpr ⟨fun h => (by cases h), ht'⟩
        | journal error => exact hrest h' (told_of_failed ht' ht.since hof) ht'
        | _ => exact hof.elim

theorem wp_stopStep_told (ht : Told h₀ started stopped h) :
    wp (stopStep sz spec revision now ids)
      (fun ids' => Told h₀ started (stopped ++ ids')) (fun _ => Effected h₀) h := by
  induction ids generalizing h stopped with
  | nil => exact (wp_pure _ _ _ _).mpr (by rwa [List.append_nil])
  | cons id ids ih =>
    simp only [stopStep, stopOne, observed, wp_bind, wp_get, wp_pure, wp_ite, applyMutation_eq]
    refine ⟨fun _ => ?_, fun _ => ?_⟩
    · refine wp_mono (wp_stop_told rfl ht) (fun _ h' ht' => ?_) fun _ _ he => he
      refine wp_mono (ih ht') (fun ids' h'' ht'' => ?_) fun _ _ he => he
      simpa using ht''
    · exact wp_mono (ih ht) (fun ids' h'' ht'' => by simpa using ht'') fun _ _ he => he

theorem wp_runSteps_told {steps : List RolloutStep} (ht : Told h₀ started stopped h) :
    wp (runSteps sz spec revision now steps) (fun outcome h' => match outcome with
      | .ok outcome => Told h₀ (started ++ outcome.started) (stopped ++ outcome.stopped) h'
      | .error _ => Told h₀ started stopped h') (fun _ => Effected h₀) h := by
  induction steps generalizing h started stopped with
  | nil => exact (wp_pure _ _ _ _).mpr (by simpa using ht)
  | cons step steps ih =>
    rw [runSteps, wp_bind]
    refine wp_mono (wp_startStep_told ht) ?_ fun _ _ he => he
    rintro refusal h₁ ⟨hnone, hback⟩
    cases refusal with
    | some reason => exact (wp_pure _ _ _ _).mpr hback
    | none =>
      refine wp_bind_of_preserves (PassInvariant.preserves_awaitStep spec step.start) (hnone rfl)
        (fun _ _ he => he.since) ?_
      intro late h₂ ht₂
      cases late with
      | some reason => exact (wp_pure _ _ _ _).mpr ht₂.fewerStarts
      | none =>
        simp only [wp_bind]
        refine wp_mono (wp_stopStep_told ht₂) ?_ fun _ _ he => he
        intro stopped' h₃ ht₃
        refine wp_mono (ih ht₃) ?_ fun _ _ he => he
        intro outcome h₄ ht₄
        cases outcome with
        | ok outcome =>
          refine (wp_pure _ _ _ _).mpr ?_
          simpa using ht₄
        | error reason =>
          exact (wp_pure _ _ _ _).mpr
            (ht₄.less (List.subset_append_left _ _) (List.subset_append_left _ _))

theorem wp_starts_told {service image : String}
    (ht : Told h₀ started stopped h) :
    wp (ids.forM fun id => MutationIntent.apply sz ⟨.start, id, service, image, revision, now⟩)
      (fun _ => Told h₀ (started ++ ids) stopped) (fun _ => Effected h₀) h := by
  induction ids generalizing h started with
  | nil => exact (wp_pure _ _ _ _).mpr (by rwa [List.append_nil])
  | cons id ids ih =>
    show wp (_ >>= fun _ => ids.forM _) _ _ h
    rw [wp_bind]
    refine wp_mono (wp_start_told ht) (fun _ h' ht' => ?_) fun _ _ he => he.1.since
    exact wp_mono (ih ht') (fun _ h'' ht'' => by simpa using ht'') fun _ _ he => he

theorem wp_stops_told {α : Type} {as : List α} {stop : α → MutationIntent}
    (hstop : ∀ a, (stop a).action = .stop) (ht : Told h₀ started stopped h) :
    wp (as.forM fun a => (stop a).apply sz)
      (fun _ => Told h₀ started (stopped ++ as.map fun a => (stop a).instanceId))
      (fun _ => Effected h₀) h := by
  induction as generalizing h stopped with
  | nil => exact (wp_pure _ _ _ _).mpr (by rwa [List.map_nil, List.append_nil])
  | cons a as ih =>
    show wp (_ >>= fun _ => as.forM _) _ _ h
    rw [wp_bind]
    refine wp_mono (wp_stop_told (hstop a) ht) (fun _ h' ht' => ?_) fun _ _ he => he
    exact wp_mono (ih ht') (fun _ h'' ht'' => by simpa using ht'') fun _ _ he => he

theorem keeps_apply_told (ht : Told h₀ started stopped h) :
    wp (intent.apply sz) (fun _ => Told h₀ started stopped) (fun _ => Effected h₀) h :=
  wp_mono (wp_apply_told ht) (fun _ _ h => h.1) fun _ _ he => he.1.since

theorem wp_updateStale_told {stale : List InstanceView} (ht : Told h₀ started stopped h) :
    wp (updateStale sz spec revision stale now) (fun outcome h' => match outcome with
      | .ok outcome => Told h₀ (started ++ outcome.started) (stopped ++ outcome.stopped) h'
      | .error _ => Told h₀ started stopped h') (fun _ => Effected h₀) h := by
  rw [updateStale, wp_ite]
  refine ⟨fun _ => (wp_pure _ _ _ _).mpr (by simpa using ht), fun _ => ?_⟩
  rw [rollingUpdate, wp_bind, wp_ofExcept]
  refine ⟨fun steps _ => ?_, fun _ _ => ht.since⟩
  rw [wp_bind]
  refine wp_mono (wp_runSteps_told ht) ?_ fun _ _ he => he
  intro outcome h₁ ht₁
  cases outcome with
  | ok outcome => exact (wp_pure _ _ _ _).mpr ht₁
  | error reason =>
    simp only [rollback, observed, wp_bind, wp_get, wp_pure, applyMutation_eq]
    refine wp_mono (wp_forM (E := fun _ => Effected h₀) (fun _ _ _ ht => keeps_apply_told ht) ht₁) ?_
      fun _ _ he => he
    intro _ h₂ ht₂
    refine wp_forM (fun index _ h₃ ht₃ => ?_) ht₂
    rw [wp_runIf]
    exact ⟨fun _ => keeps_apply_told ht₃, fun _ => ht₃⟩

theorem wp_convergeCount_told (ht : Told h₀ started stopped h) :
    wp (convergeCount sz spec revision now)
      (fun counted => Told h₀ (started ++ counted.1) (stopped ++ counted.2)) (fun _ => Effected h₀) h := by
  simp only [convergeCount, observed, wp_bind, wp_get, wp_pure, applyMutation_eq]
  refine wp_mono (wp_starts_told ht) (fun _ h' ht' => ?_) fun _ _ he => he
  refine wp_mono (wp_stops_told (fun _ => rfl) ht') (fun _ h'' ht'' => ?_) fun _ _ he => he
  simpa using ht''

theorem wp_reconcileService_told {views : List InstanceView} {report : ReconcileReport}
    (ht : Told h₀ report.started report.stopped h) :
    wp (reconcileService sz views revision now report spec)
      (fun report => Told h₀ report.started report.stopped) (fun _ => Effected h₀) h := by
  simp only [reconcileService, wp_bind]
  refine wp_mono (wp_updateStale_told ht) ?_ fun _ _ he => he
  intro outcome h' ht'
  cases outcome with
  | error aborted => exact (wp_pure _ _ _ _).mpr ht'
  | ok outcome =>
    simp only [wp_bind]
    exact wp_mono (wp_convergeCount_told ht') (fun _ _ ht'' => ht'') fun _ _ he => he

theorem wp_enforceHealth_told {desired : DesiredWorkload} (ht : Told h₀ started stopped h) :
    wp (enforceHealth sz desired now) (fun _ => Told h₀ started stopped) (fun _ => Effected h₀) h := by
  simp only [enforceHealth, wp_bind, wp_get, wp_modify, wp_pure, applyMutation_eq]
  refine wp_forM (fun view _ h' ht' => ?_) (ht.noted (.of_eq rfl rfl rfl rfl))
  rw [wp_bind]
  exact wp_mono (keeps_apply_told ht') (fun _ _ ht'' => keeps_apply_told ht'') fun _ _ he => he

end Told
def Catalogued (now : Int64) (h : NodeHost) : Prop :=
  buildCatalog h.executor.list now = .ok h.catalog

theorem wp_publishCatalog_told {views : List InstanceView} (ht : Told h₀ started stopped h) :
    wp (publishCatalog sz views now) (fun _ h' => Told h₀ started stopped h' ∧
      (h.executor.list = views → Catalogued now h')) (fun _ => Effected h₀) h := by
  simp only [publishCatalog, wp_bind, wp_ofExcept, wp_rejectIf, wp_modify]
  refine ⟨fun catalog hcatalog => ⟨fun _ => ht.since, fun _ => ?_⟩, fun _ _ => ht.since⟩
  have ht' : Told h₀ started stopped { h with catalog := catalog, catalogFile := some catalog } :=
    ht.noted (.of_eq rfl rfl rfl rfl)
  exact wp_trip ⟨ht', fun hviews => (congrArg (buildCatalog · now) hviews).trans hcatalog⟩ fun _ hnoted _ => ht'.since.noted hnoted

theorem wp_convergeTo_told {desired : DesiredWorkload} {recovered : Nat}
    (ht : Told h₀ [] [] h) :
    wp (convergeTo sz desired recovered now) (fun report h' =>
      Told h₀ report.started report.stopped h' ∧ Catalogued now h') (fun _ => Effected h₀) h := by
  simp only [convergeTo, observed, wp_bind, wp_get, wp_pure]
  refine wp_mono (wp_foldlM (I := fun report => Told h₀ report.started report.stopped)
    (E := fun _ => Effected h₀) (fun _ spec _ report h' _ _ ht' => wp_reconcileService_told ht') ht)
    ?_ fun _ _ he => he
  intro report h₁ ht₁
  simp only [stopAll, applyMutation_eq]
  refine wp_mono (wp_stops_told (fun _ => rfl) ht₁) ?_ fun _ _ he => he
  intro _ h₂ ht₂
  refine wp_mono (wp_enforceHealth_told ht₂) ?_ fun _ _ he => he
  intro restarted h₃ ht₃
  refine wp_mono (wp_publishCatalog_told ht₃) ?_ fun _ _ he => he
  rintro _ h₄ ⟨ht₄, hcatalog⟩
  simp only [saveState, wp_modify]
  exact ⟨ht₄.noted (.of_eq rfl rfl rfl rfl), hcatalog rfl⟩

/-- Where no workload is stored, the instances that are stopped are published all the same. -/
theorem wp_convergeToNothing_told {recovered : Nat} (ht : Told h₀ [] [] h) :
    wp (convergeToNothing sz recovered now) (fun report h' =>
      Told h₀ report.started report.stopped h' ∧ (h.executor.list = [] → Catalogued now h'))
      (fun _ => Effected h₀) h := by
  simp only [convergeToNothing, observed, wp_bind, wp_get, wp_pure, stopAll, applyMutation_eq]
  by_cases hempty : h.executor.list = []
  · rw [hempty]
    refine (wp_pure _ _ _ _).mpr (wp_mono (wp_publishCatalog_told ht) ?_ fun _ _ he => he)
    rintro _ h' ⟨ht', hcatalog⟩
    simp only [saveState, wp_modify]
    exact ⟨ht'.noted (.of_eq rfl rfl rfl rfl), fun _ => hcatalog hempty⟩
  · refine wp_mono (wp_stops_told (fun _ => rfl) ht) ?_ fun _ _ he => he
    intro _ h₁ ht₁
    refine wp_mono (wp_publishCatalog_told ht₁) ?_ fun _ _ he => he
    rintro _ h' ⟨ht', -⟩
    simp only [saveState, wp_modify]
    exact ⟨ht'.noted (.of_eq rfl rfl rfl rfl), fun h => absurd h hempty⟩

theorem wp_reconcile_told (sz : NodeSizes) (now : Int64) (h₀ : NodeHost) :
    wp (reconcile sz now) (fun report h => Told h₀ report.started report.stopped h ∧
      ((h₀.workload = none → h₀.executor.list = []) → Catalogued now h))
      (fun _ => Effected h₀) h₀ := by
  have hstart : Told h₀ [] [] h₀ := ⟨.refl h₀, by simp, by simp⟩
  rw [reconcile, wp_bind]
  refine wp_mono (PassInvariant.wp_recoverAmbiguous
    (J := fun h => Told h₀ [] [] h ∧ h.workload = h₀.workload ∧ h.executor = h₀.executor)
    (fun hn hJ => ⟨hJ.1.noted hn, hn.workload.trans hJ.2.1, hn.executor.trans hJ.2.2⟩)
    ⟨hstart, rfl, rfl⟩) ?_ fun _ _ he => he.1.since
  rintro recovered h ⟨ht, hworkload, hexecutor⟩
  simp only [wp_bind, wp_get, wp_ofExcept]
  refine ⟨fun stored hload => ?_, fun _ _ => ht.since⟩
  cases stored with
  | some desired =>
    exact wp_mono (wp_convergeTo_told ht) (fun _ _ hdone => ⟨hdone.1, fun _ => hdone.2⟩)
      fun _ _ he => he
  | none =>
    refine wp_mono (wp_convergeToNothing_told ht) (fun _ _ hdone => ⟨hdone.1, fun hidle => ?_⟩)
      fun _ _ he => he
    have hnone := PassInvariant.load_eq_ok_none hload
    exact hdone.2 (hexecutor ▸ hidle (hworkload ▸ hnone))

namespace ManagedNode

/-- A run of a node over whatever instances the executor has. -/
def runOver (sz : NodeSizes) (executor : RecordingExecutor) (calls : List NodeCall) : ManagedNode :=
  calls.foldl (step sz) ⟨{ NodeHost.new executor.clock with executor := executor }, []⟩

theorem keyed_step (sz : NodeSizes) {n : ManagedNode} (hkeyed : n.host.executor.Keyed)
    (call : NodeCall) : (n.step sz call).host.executor.Keyed := by
  have hmodify (id : String) (healthy : Bool) {id' : String} {view : InstanceView}
      (hget : (n.host.executor.instances.modify id fun view =>
        { view with healthy := healthy }).get id' = some view) : view.instanceId = id' := by
    rw [OrdMap.get_modify] at hget
    split at hget
    · obtain ⟨view', hget', rfl⟩ := Option.map_eq_some_iff.mp hget
      exact hkeyed id' view' hget'
    · exact hkeyed id' view hget
  cases call with
  | publish w =>
    rcases publishDesired_cases sz w n.host with ⟨e, he⟩ | ⟨hok, -⟩
    · simpa only [step, he] using hkeyed
    · simpa only [step, hok] using hkeyed
  | reconcile now =>
    exact (after_of_wp (wp_mono (wp_reconcile_told sz now n.host) (fun _ _ h => h.1.since)
      fun _ _ he => he)).keyed hkeyed
  | setUnhealthy id => exact fun _ _ hget => hmodify id false hget
  | clearUnhealthy id => exact fun _ _ hget => hmodify id true hget
  | _ => exact hkeyed

theorem keyed_runOver (sz : NodeSizes) {executor : RecordingExecutor} (hkeyed : executor.Keyed)
    (calls : List NodeCall) : (runOver sz executor calls).host.executor.Keyed :=
  List.foldlRecOn calls (step sz) (motive := fun n => n.host.executor.Keyed) hkeyed
    fun _ hn call _ => keyed_step sz hn call

end ManagedNode

/-- What a pass reports is on record, every effect follows its intent, the journal has every line
that was recorded, and every service resolves to what runs. -/
structure Faithful (h₀ : NodeHost) (now : Int64) (report : ReconcileReport) (h : NodeHost) :
    Prop where
  started : ∀ id ∈ report.started, Documented (eventsSince h₀ h) .start id
  stopped : ∀ id ∈ report.stopped, Documented (eventsSince h₀ h) .stop id
  preceded : Preceded (eventsSince h₀ h)
  lines : h.lines = h₀.lines ++ linesOf (eventsSince h₀ h)
  resolved : ∀ service, (h.catalog.resolve service now).1
    = (h.executor.list.filter fun view => view.service = service).filterMap (·.endpoint? now)

theorem RecordingExecutor.Keyed.list_sorted {e : RecordingExecutor} (hkeyed : e.Keyed) :
    e.list.Pairwise fun a b => a.instanceId < b.instanceId := by
  refine List.pairwise_map.mpr (e.instances.sorted.imp_of_mem ?_)
  rintro ⟨k, v⟩ ⟨k', v'⟩ hv hv' hlt
  rw [← OrdMap.get_eq_some_iff] at hv hv'
  rw [hkeyed k v hv, hkeyed k' v' hv']
  exact hlt

/-- In every state a node can reach over any instances, a pass that returns reports faithfully when
no use of the journal has failed in it, and no instance was left without a stored workload. -/
theorem report_faithful (sz : NodeSizes) {executor : RecordingExecutor} (hkeyed : executor.Keyed)
    (calls : List NodeCall) (now : Int64) (report : ReconcileReport)
    (hresult : (reconcile sz now).result (ManagedNode.runOver sz executor calls).host = .ok report)
    (hheld : JournalHeld (ManagedNode.runOver sz executor calls).host
      ((reconcile sz now).after (ManagedNode.runOver sz executor calls).host))
    (hidle : (ManagedNode.runOver sz executor calls).host.workload = none →
      (ManagedNode.runOver sz executor calls).host.executor.list = []) :
    Faithful (ManagedNode.runOver sz executor calls).host now report
      ((reconcile sz now).after (ManagedNode.runOver sz executor calls).host) := by
  have hk := ManagedNode.keyed_runOver sz hkeyed calls
  generalize ManagedNode.runOver sz executor calls = n at *
  obtain ⟨htold, hcatalog⟩ := ((wp_iff _ _ _ _).mp (wp_reconcile_told sz now n.host)).1 report hresult
  obtain ⟨events, htrace, hpreceded, hlines⟩ := htold.since.events
  have hevents := eventsSince_eq htrace
  exact ⟨htold.started hheld, htold.stopped, hevents ▸ hpreceded, hevents ▸ hlines,
    fun service => resolve_buildCatalog (htold.since.keyed hk).list_sorted (hcatalog hidle)⟩

/-- An instance of an older revision, and one of a service that no workload asks for. -/
def leftOver : RecordingExecutor where
  instances := (OrdMap.empty.insert "old-r9-0"
      ⟨"old-r9-0", "old", 9, "old:9", true, true, some "127.0.0.1", 8080⟩).insert "web-r1-0"
    ⟨"web-r1-0", "web", 1, "web:1", true, true, some "127.0.0.1", 8080⟩
  unhealthy := []
  failStartsFor := []
  clock := 1000

theorem leftOver_keyed : leftOver.Keyed := by
  intro id view hget
  simp only [leftOver, OrdMap.get_insert] at hget
  split at hget
  · next hid =>
    cases hget
    exact hid.symm
  · split at hget
    · next hid =>
      cases hget
      exact hid.symm
    · cases hget

def plainUpdate : List NodeCall := [.publish ⟨2, [plainService "web" "web:2" 1 1]⟩]

def NodeEvent.isFailure : NodeEvent → Bool
  | journalFailed _ => true
  | _ => false

theorem plain_update_faithful : ∃ report,
    (reconcile plainSizes 1000).result (ManagedNode.runOver plainSizes leftOver plainUpdate).host
      = .ok report ∧ report.started = ["web-r2-0"] ∧ report.stopped = ["web-r1-0", "old-r9-0"] ∧
    Faithful (ManagedNode.runOver plainSizes leftOver plainUpdate).host 1000 report
      ((reconcile plainSizes 1000).after
        (ManagedNode.runOver plainSizes leftOver plainUpdate).host) := by
  obtain ⟨report, hrun, hreport⟩ : ∃ report, reconcile plainSizes 1000
      (ManagedNode.runOver plainSizes leftOver plainUpdate).host = (.ok report, _) ∧
        decide (report.started = ["web-r2-0"] ∧ report.stopped = ["web-r1-0", "old-r9-0"]) = true :=
    eq_of_returns (by decide +kernel)
  have hresult : (reconcile plainSizes 1000).result
      (ManagedNode.runOver plainSizes leftOver plainUpdate).host = .ok report :=
    congrArg Prod.fst hrun
  obtain ⟨hstarted, hstopped⟩ := of_decide_eq_true hreport
  refine ⟨report, hresult, hstarted, hstopped, report_faithful plainSizes leftOver_keyed plainUpdate
    1000 report hresult (fun error hfailed => ?_) (fun hnone => (by cases hnone))⟩
  have hnone : (eventsSince (ManagedNode.runOver plainSizes leftOver plainUpdate).host
      ((reconcile plainSizes 1000).after
        (ManagedNode.runOver plainSizes leftOver plainUpdate).host)).any
        NodeEvent.isFailure = false := by decide +kernel
  rw [List.any_eq_false] at hnone
  exact hnone _ hfailed rfl

def lostOutcome : List NodeCall :=
  [.publish ⟨1, [plainService "web" "web:1" 1 1]⟩, .reconcile 1000,
    .publish ⟨2, [plainService "web" "web:2" 1 1]⟩, .fates [false, true]]

def hasOutcome (lines : List JournalEntry) (action : MutationAction) (id : String) : Bool :=
  lines.any fun
    | .intent record => record.action = action ∧ record.instanceId = id ∧ lines.any fun
      | .outcome outcome => outcome.seq = record.seq ∧ outcome.ok
      | .intent _ => false
    | .outcome _ => false

theorem hasOutcome_of_documented
    (hd : Documented events action id) : hasOutcome (linesOf events) action id = true := by
  obtain ⟨later, earlier, intent, instances, seq, outcome, rfl, rfl, rfl, rfl, hok⟩ := hd
  rw [hasOutcome, List.any_eq_true]
  refine ⟨.intent (intent.record outcome.seq), by simp [linesOf, NodeEvent.line?], ?_⟩
  simp only [MutationIntent.record, true_and, decide_eq_true_eq, List.any_eq_true]
  exact ⟨.outcome outcome, by simp [linesOf, NodeEvent.line?], by simp [hok]⟩

/-- The start is reported, and its outcome is nowhere. -/
theorem lost_outcome_reported : ∃ report,
    (reconcile plainSizes 1000).result (ManagedNode.run plainSizes 1000 lostOutcome).host
      = .ok report ∧
    ¬ Faithful (ManagedNode.run plainSizes 1000 lostOutcome).host 1000 report
      ((reconcile plainSizes 1000).after (ManagedNode.run plainSizes 1000 lostOutcome).host) := by
  obtain ⟨report, hrun, hreport⟩ : ∃ report, reconcile plainSizes 1000
      (ManagedNode.run plainSizes 1000 lostOutcome).host = (.ok report, _) ∧
        decide ("web-r2-0" ∈ report.started) = true :=
    eq_of_returns (by decide +kernel)
  refine ⟨report, congrArg Prod.fst hrun, fun hfaithful => ?_⟩
  have hlost : hasOutcome (linesOf (eventsSince (ManagedNode.run plainSizes 1000 lostOutcome).host
      ((reconcile plainSizes 1000).after (ManagedNode.run plainSizes 1000 lostOutcome).host)))
        .start "web-r2-0" = false := by decide +kernel
  rw [hasOutcome_of_documented (hfaithful.started "web-r2-0" (of_decide_eq_true hreport))] at hlost
  cases hlost

/-! Without a stored workload the instances are stopped and stay published. -/

example :
    let h := (reconcile plainSizes 1000).after (ManagedNode.runOver plainSizes leftOver []).host
    h.executor.list = [] ∧ (h.catalog.resolve "old" 1000).1 ≠ [] := by
  decide +kernel

end Ferrocrate.Node
