import Ferrocrate.Lib.Runs
import Ferrocrate.Netd.Floors
import Ferrocrate.Netd.Grants
import Ferrocrate.Netd.ParentsKept

/-! Recovery gives endpoints back with their overlays when it loses none of these, and so over runs:
as long as nothing takes an overlay from an endpoint, every endpoint has its overlay. -/
namespace Ferrocrate.Netd
open Lib
open Lib.Program
open Authorization
variable {κ γ ε : Type} {sv : Services κ γ}

theorem stripStart_append (start s : String) : stripStart start (start ++ s) = some s := by
  have hdrop : (start.toList ++ s.toList).drop start.length = s.toList := by
    rw [← String.length_toList, List.drop_left]
  simp [stripStart, hdrop]

theorem stripStart_endpoint_overlay (overlay : String) :
    stripStart "endpoint:" ("overlay:" ++ overlay) = none := by
  simp [stripStart]

namespace OverlayMutationIntent

def kept (observe : EffectReceipt → LiveEffectObservation) (intent : OverlayMutationIntent) :
    Option EffectReceipt :=
  if intent.phase = .succeeded then none
  else if observe intent.desired = .exact then
    if intent.desired.expectedExists then some intent.desired else none
  else intent.prior.filter (observe · = .exact)

def gone (observe : EffectReceipt → LiveEffectObservation) (intent : OverlayMutationIntent) :
    Prop :=
  intent.phase ≠ .succeeded ∧ observe intent.desired = .exact ∧
    intent.desired.expectedExists = false

end OverlayMutationIntent

namespace Ownership
variable {observe : EffectReceipt → LiveEffectObservation} {o : Ownership}
  {A pending : String → Prop}

def Takes (observe : EffectReceipt → LiveEffectObservation) (o : Ownership) (overlay : String) :
    Prop :=
  ∃ endpoint intent receipt, o.overlayIntents.get ("endpoint:" ++ endpoint) = some intent ∧
    intent.kept observe = some receipt ∧ receipt.endpointOverlay = some overlay

/-- Recovery takes no overlay from an endpoint: it takes endpoints over only with overlays that are
owned or taken over, and drops no overlay that an endpoint has. -/
structure Spares (observe : EffectReceipt → LiveEffectObservation) (o : Ownership) : Prop where
  taken : ∀ overlay, o.Takes observe overlay → o.overlays.contains overlay = true ∨
    ∃ intent, o.overlayIntents.get ("overlay:" ++ overlay) = some intent ∧
      (intent.kept observe).isSome = true
  dropped : ∀ overlay, ((∃ endpoint, o.endpoints.get endpoint = some overlay) ∨
      o.Takes observe overlay) →
    ∀ identity intent, o.overlayIntents.get identity = some intent → intent.gone observe →
      (stripStart "overlay:" identity).getD "" ≠ overlay

def attached (o : Ownership) (endpoint : String) (receipt : EffectReceipt) : Ownership :=
  { o with
    endpoints := match receipt.endpointOverlay with
      | some overlay => o.endpoints.insert endpoint overlay
      | none => o.endpoints
    effectReceipts := o.effectReceipts.insert ("endpoint:" ++ endpoint) receipt }

variable {intent : OverlayMutationIntent}

theorem adoptDesired_endpoint
    (hexists : intent.desired.expectedExists = true) (endpoint : String) :
    o.adoptDesired ("endpoint:" ++ endpoint) intent = o.attached endpoint intent.desired := by
  rw [adoptDesired, if_pos hexists, stripStart_append, attached]
  cases intent.desired.endpointOverlay <;> rfl

theorem adoptDesired_overlay
    (hexists : intent.desired.expectedExists = true) (overlay : String) :
    o.adoptDesired ("overlay:" ++ overlay) intent = { o with
      overlays := o.overlays.insert overlay ()
      routes := o.routes.insert overlay intent.routes
      addresses := o.addresses.insert overlay intent.addresses
      effectReceipts := o.effectReceipts.insert ("overlay:" ++ overlay) intent.desired } := by
  rw [adoptDesired, if_pos hexists, stripStart_endpoint_overlay, stripStart_append]
  rfl

theorem restorePrior_endpoint (endpoint : String) (prior : EffectReceipt) :
    o.restorePrior ("endpoint:" ++ endpoint) prior = o.attached endpoint prior := by
  rw [restorePrior, stripStart_append, attached]
  cases prior.endpointOverlay <;> rfl

theorem restorePrior_overlay (overlay : String) (prior : EffectReceipt) :
    o.restorePrior ("overlay:" ++ overlay) prior = { o with
      overlays := o.overlays.insert overlay ()
      effectReceipts := o.effectReceipts.insert ("overlay:" ++ overlay) prior } := by
  rw [restorePrior, stripStart_endpoint_overlay, stripStart_append]
  rfl

structure Recovering (A pending : String → Prop) (o : Ownership) : Prop where
  vouched : o.Vouched
  parents : ∀ endpoint overlay, o.endpoints.get endpoint = some overlay → A overlay
  owned : ∀ overlay, A overlay → o.overlays.contains overlay = true ∨ pending overlay

namespace Recovering

theorem settle (h : o.Recovering A pending) (identity : String) (phase : IntentPhase) :
    (o.settle identity phase).Recovering A pending :=
  ⟨h.vouched.advance identity (fun _ => rfl) fun _ => rfl, h.parents, h.owned⟩

theorem release (h : o.Recovering A pending) (identity : String) :
    (o.release identity).Recovering A pending :=
  ⟨⟨h.vouched.owned, h.vouched.receipts, h.vouched.intents⟩, h.parents, h.owned⟩

theorem quarantine (h : o.Recovering A pending) (entry : String) :
    (o.quarantine entry).Recovering A pending :=
  ⟨⟨h.vouched.owned, h.vouched.receipts, h.vouched.intents⟩, h.parents, h.owned⟩

variable {receipt : EffectReceipt} {overlay : String}

theorem own (h : o.Recovering A fun v => v = overlay ∨ pending v) (hreceipt : receipt.isLegacyIdentity = false)
    (routes addresses : OrdMap String (List String)) :
    Recovering A pending { o with
      overlays := o.overlays.insert overlay ()
      routes := routes
      addresses := addresses
      effectReceipts := o.effectReceipts.insert ("overlay:" ++ overlay) receipt } := by
  refine ⟨h.vouched.own hreceipt overlay routes addresses, h.parents, fun v hv => ?_⟩
  rcases h.owned v hv with howned | rfl | hpending
  · exact .inl (contains_insert_of howned overlay)
  · refine .inl ?_
    rw [OrdMap.contains, OrdMap.get_insert_self]
    rfl
  · exact .inr hpending

theorem attach (h : o.Recovering A pending)
    (hreceipt : receipt.isLegacyIdentity = false) (endpoint : String)
    (hoverlay : ∀ overlay, receipt.endpointOverlay = some overlay → A overlay) :
    (o.attached endpoint receipt).Recovering A pending := by
  refine ⟨h.vouched.attach hreceipt endpoint _, fun endpoint' overlay hget => ?_, h.owned⟩
  cases hparent : receipt.endpointOverlay with
  | none =>
    rw [attached, hparent] at hget
    exact h.parents endpoint' overlay hget
  | some parent =>
    rw [attached, hparent, OrdMap.get_insert] at hget
    split at hget
    · cases hget
      exact hoverlay _ hparent
    · exact h.parents endpoint' overlay hget

variable {identity : String}

theorem drop (h : o.Recovering A pending) (hfree : ¬A overlay)
    (endpoints : OrdMap String String) (hendpoints : ∀ endpoint overlay,
      endpoints.get endpoint = some overlay → o.endpoints.get endpoint = some overlay) (hidentity : ∀ owned, owned ≠ overlay → "overlay:" ++ owned ≠ identity)
    (routes addresses : OrdMap String (List String)) :
    Recovering A pending { o with
      endpoints := endpoints
      overlays := o.overlays.erase overlay
      routes := routes
      addresses := addresses
      effectReceipts := o.effectReceipts.erase identity } := by
  have hreceipt : ∀ owned, (o.overlays.erase overlay).contains owned = true →
      "overlay:" ++ owned ≠ identity := by
    intro owned howned
    refine hidentity owned ?_
    rintro rfl
    rw [OrdMap.contains, OrdMap.get_erase_self] at howned
    cases howned
  have hvouched := (h.vouched.disown overlay routes addresses).dropReceipt hreceipt
  refine ⟨⟨hvouched.owned, hvouched.receipts, hvouched.intents⟩,
    fun endpoint parent hget => h.parents endpoint parent (hendpoints endpoint parent hget),
    fun v hv => (h.owned v hv).imp_left fun howned => contains_erase_of howned ?_⟩
  rintro rfl
  exact hfree hv

theorem mono {pending' : String → Prop} (h : o.Recovering A pending)
    (hpending : ∀ v, pending v → pending' v) : o.Recovering A pending' :=
  ⟨h.vouched, h.parents, fun v hv => (h.owned v hv).imp_right (hpending v)⟩

theorem takeOverlay {taken : Prop}
    (h : o.Recovering A fun v => ("overlay:" ++ overlay = "overlay:" ++ v ∧ taken) ∨ pending v) (hreceipt : receipt.isLegacyIdentity = false)
    (routes addresses : OrdMap String (List String)) :
    Recovering A pending { o with
      overlays := o.overlays.insert overlay ()
      routes := routes
      addresses := addresses
      effectReceipts := o.effectReceipts.insert ("overlay:" ++ overlay) receipt } :=
  (h.mono fun _ hv => hv.imp_left fun hv => (overlay_inj.mp hv.1).symm : o.Recovering A fun v =>
    v = overlay ∨ pending v).own hreceipt routes addresses

theorem takeEndpoint {endpoint : String} {taken : Prop}
    (h : o.Recovering A fun v => ("endpoint:" ++ endpoint = "overlay:" ++ v ∧ taken) ∨ pending v) (hreceipt : receipt.isLegacyIdentity = false)
    (hoverlay : ∀ overlay, receipt.endpointOverlay = some overlay → A overlay) :
    (o.attached endpoint receipt).Recovering A pending :=
  (h.mono fun v hv => hv.resolve_left fun hv => overlay_ne_endpoint v endpoint hv.1.symm :
    o.Recovering A pending).attach hreceipt endpoint hoverlay

variable {intent : OverlayMutationIntent}

theorem takeNothing
    (h : o.Recovering A fun v => (identity = "overlay:" ++ v ∧
      (intent.kept observe).isSome = true) ∨ pending v) (hkept : intent.kept observe = none) :
    o.Recovering A pending := by
  refine h.mono fun v hv => hv.resolve_left fun hv => ?_
  rw [hkept] at hv
  cases hv.2

theorem adoptRemoval (h : o.Recovering A pending) (hexists : intent.desired.expectedExists = false)
    (hfree : ¬A ((stripStart "overlay:" identity).getD "")) :
    (o.adoptDesired identity intent).Recovering A pending := by
  rw [adoptDesired, if_neg (Bool.eq_false_iff.mp hexists)]
  refine h.drop hfree _ (fun endpoint overlay hget => ?_) ?_ _ _
  · cases hstrip : stripStart "endpoint:" identity with
    | none =>
      rw [hstrip] at hget
      exact hget
    | some removed =>
      rw [hstrip, OrdMap.get_erase] at hget
      split at hget
      · cases hget
      · exact hget
  · rintro owned hne rfl
    rw [stripStart_append] at hne
    exact hne rfl

theorem recoverIntent
    (h : o.Recovering A fun v => (identity = "overlay:" ++ v ∧
      (intent.kept observe).isSome = true) ∨ pending v)
    (hsound : intent.Sound identity)
    (htaken : ∀ endpoint receipt overlay, identity = "endpoint:" ++ endpoint →
      intent.kept observe = some receipt → receipt.endpointOverlay = some overlay → A overlay)
    (hdropped : intent.gone observe → ¬A ((stripStart "overlay:" identity).getD "")) :
    (Ownership.recoverIntent observe o (identity, intent)).Recovering A pending := by
  have hkinds : (∃ overlay, identity = "overlay:" ++ overlay) ∨
      ∃ endpoint, identity = "endpoint:" ++ endpoint := by
    rw [hsound.identity_eq]
    cases intent.desired with
    | overlay receipt => exact .inl ⟨_, rfl⟩
    | endpoint receipt => exact .inr ⟨_, rfl⟩
  unfold Ownership.recoverIntent
  dsimp only
  split_ifs with hphase hexact
  · exact h.takeNothing (if_pos hphase)
  · refine Recovering.settle ?_ _ _
    cases hexists : intent.desired.expectedExists with
    | false =>
      have hkept : intent.kept observe = none := by
        rw [OverlayMutationIntent.kept, if_neg hphase, if_pos hexact, hexists]
        rfl
      exact ((h.takeNothing hkept).release identity).adoptRemoval hexists
        (hdropped ⟨hphase, hexact, hexists⟩)
    | true =>
      have hkept : intent.kept observe = some intent.desired := by
        rw [OverlayMutationIntent.kept, if_neg hphase, if_pos hexact, if_pos hexists]
      rcases hkinds with ⟨overlay, rfl⟩ | ⟨endpoint, rfl⟩
      · rw [adoptDesired_overlay hexists]
        exact (h.release _).takeOverlay hsound.desired _ _
      · rw [adoptDesired_endpoint hexists]
        exact (h.release _).takeEndpoint hsound.desired fun overlay => htaken _ _ _ rfl hkept
  · have hkept : intent.kept observe = intent.prior.filter (observe · = .exact) := by
      rw [OverlayMutationIntent.kept, if_neg hphase, if_neg hexact]
    cases hprior : intent.prior.filter (observe · = .exact) with
    | none => exact ((h.takeNothing (hkept.trans hprior)).quarantine _).settle _ _
    | some prior =>
      refine Recovering.settle ?_ _ _
      have hreceipt := hsound.prior prior (Option.filter_eq_some_iff.mp hprior).1
      rcases hkinds with ⟨overlay, rfl⟩ | ⟨endpoint, rfl⟩
      · rw [restorePrior_overlay]
        exact (h.release _).takeOverlay hreceipt _ _
      · rw [restorePrior_endpoint]
        exact (h.release _).takeEndpoint hreceipt fun overlay =>
          htaken _ _ _ rfl (hkept.trans hprior)

theorem recoverIntents {entries : List (String × OverlayMutationIntent)}
    (h : o.Recovering A fun v => ∃ intent, ("overlay:" ++ v, intent) ∈ entries ∧
      (intent.kept observe).isSome = true)
    (hsound : ∀ identity intent, (identity, intent) ∈ entries → intent.Sound identity)
    (htaken : ∀ endpoint intent receipt overlay, ("endpoint:" ++ endpoint, intent) ∈ entries →
      intent.kept observe = some receipt → receipt.endpointOverlay = some overlay → A overlay)
    (hdropped : ∀ identity intent, (identity, intent) ∈ entries → intent.gone observe →
      ¬A ((stripStart "overlay:" identity).getD "")) :
    (entries.foldl (Ownership.recoverIntent observe) o).Recovering A fun _ => False := by
  induction entries generalizing o with
  | nil =>
    refine h.mono fun v hv => ?_
    obtain ⟨intent, hmem, -⟩ := hv
    cases hmem
  | cons entry entries ih =>
    obtain ⟨identity, intent⟩ := entry
    have hhead : o.Recovering A fun v => (identity = "overlay:" ++ v ∧
        (intent.kept observe).isSome = true) ∨ ∃ intent, ("overlay:" ++ v, intent) ∈ entries ∧
          (intent.kept observe).isSome = true := by
      refine h.mono fun v hv => ?_
      obtain ⟨intent', hmem, hkept⟩ := hv
      cases List.mem_cons.mp hmem with
      | inl heq =>
        cases heq
        exact .inl ⟨rfl, hkept⟩
      | inr hmem => exact .inr ⟨intent', hmem, hkept⟩
    have hstep := hhead.recoverIntent (hsound identity intent List.mem_cons_self)
      (fun endpoint receipt overlay hid => htaken endpoint intent receipt overlay
        (by rw [hid]; exact List.mem_cons_self))
      (hdropped identity intent List.mem_cons_self)
    exact ih hstep (fun _ _ hmem => hsound _ _ (List.mem_cons_of_mem _ hmem))
      (fun _ _ _ _ hmem => htaken _ _ _ _ (List.mem_cons_of_mem _ hmem))
      fun _ _ hmem => hdropped _ _ (List.mem_cons_of_mem _ hmem)

theorem quarantines (h : o.Recovering A pending) (entries : List String) :
    (entries.foldl Ownership.quarantine o).Recovering A pending := by
  induction entries generalizing o with
  | nil => exact h
  | cons entry entries ih => exact ih (h.quarantine entry)

end Recovering

theorem overlayIntents_quarantines (entries : List String) (o : Ownership) :
    (entries.foldl quarantine o).overlayIntents = o.overlayIntents := by
  induction entries generalizing o with
  | nil => rfl
  | cons entry entries ih => exact ih (o.quarantine entry)

theorem doubtReceipts_eq (observe : EffectReceipt → LiveEffectObservation) (o : Ownership) :
    o.doubtReceipts observe = ((o.effectReceipts.entries.filter fun e =>
      observe e.2 ≠ .exact).map fun e => "ambiguous-" ++ e.1).foldl quarantine o := by
  rw [List.foldl_map]
  rfl

theorem Vouched.verifiable (h : o.Vouched) {overlay : String}
    (howned : o.overlays.contains overlay = true) :
    o.verifiable ("overlay:" ++ overlay) = true := by
  obtain ⟨receipt, hreceipt⟩ := Option.isSome_iff_exists.mp (h.owned overlay howned)
  rw [Ownership.verifiable, hreceipt, Option.any_some, h.receipts _ _ hreceipt]
  rfl

theorem Recovering.dropUnverifiable (h : o.Recovering A pending) :
    o.dropUnverifiable.Recovering A pending := by
  have hretained {overlay : String} : (o.overlays.retain fun overlay _ =>
      o.verifiable ("overlay:" ++ overlay)).contains overlay = true ↔
        o.overlays.contains overlay = true := by
    constructor
    · intro hkept
      rw [OrdMap.contains, OrdMap.get_retain] at hkept
      cases hget : o.overlays.get overlay with
      | none =>
        rw [hget] at hkept
        cases hkept
      | some _ =>
        rw [OrdMap.contains, hget]
        rfl
    · intro howned
      obtain ⟨_, hget⟩ := Option.isSome_iff_exists.mp howned
      rw [OrdMap.contains, OrdMap.get_retain, hget, Option.filter_some,
        if_pos (h.vouched.verifiable howned)]
      rfl
  unfold Ownership.dropUnverifiable
  refine Recovering.quarantines ?_ _
  refine ⟨⟨fun overlay howned => ?_, h.vouched.receipts, h.vouched.intents⟩,
    fun endpoint overlay hget => ?_, fun overlay hA => ?_⟩
  · exact h.vouched.owned overlay (hretained.mp howned)
  · rw [OrdMap.get_retain] at hget
    exact h.parents endpoint overlay (Option.filter_eq_some_iff.mp hget).1
  · exact (h.owned overlay hA).imp_left hretained.mpr

theorem Rooted.recovered (h : o.Rooted) (hspares : o.Spares observe) :
    (o.recovered observe).Rooted := by
  set A : String → Prop := fun overlay =>
    (∃ endpoint, o.endpoints.get endpoint = some overlay) ∨ o.Takes observe overlay with hA
  have hstart : o.Recovering A fun v => ∃ intent, ("overlay:" ++ v, intent) ∈
      o.overlayIntents.entries ∧ (intent.kept observe).isSome = true := by
    refine ⟨h.vouched, fun endpoint overlay hget => .inl ⟨endpoint, hget⟩, fun overlay hv => ?_⟩
    cases hv with
    | inl hattached =>
      obtain ⟨endpoint, hget⟩ := hattached
      exact .inl (h.parents endpoint overlay hget)
    | inr htaken =>
      refine (hspares.taken overlay htaken).imp_right fun hintent => ?_
      obtain ⟨intent, hget, hkept⟩ := hintent
      exact ⟨intent, (OrdMap.get_eq_some_iff _).mp hget, hkept⟩
  have hdoubted : (o.dropUnverifiable.doubtReceipts observe).Recovering A fun v =>
      ∃ intent, ("overlay:" ++ v, intent) ∈ o.overlayIntents.entries ∧
        (intent.kept observe).isSome = true := by
    rw [doubtReceipts_eq]
    exact hstart.dropUnverifiable.quarantines _
  have hintents : (o.dropUnverifiable.doubtReceipts observe).overlayIntents
      = o.overlayIntents := by
    rw [doubtReceipts_eq, overlayIntents_quarantines, dropUnverifiable, overlayIntents_quarantines]
  have hrecovered := hdoubted.recoverIntents
    (fun identity intent hmem => h.vouched.intents identity intent
      ((OrdMap.get_eq_some_iff _).mpr hmem))
    (fun endpoint intent receipt overlay hmem hkept hoverlay =>
      .inr ⟨endpoint, intent, receipt, (OrdMap.get_eq_some_iff _).mpr hmem, hkept, hoverlay⟩)
    fun identity intent hmem hgone hattached => hspares.dropped _ hattached identity intent
      ((OrdMap.get_eq_some_iff _).mpr hmem) hgone rfl
  rw [Ownership.recovered, hintents]
  exact ⟨hrecovered.vouched, fun endpoint overlay hget =>
    (hrecovered.owned overlay (hrecovered.parents endpoint overlay hget)).resolve_right id⟩

theorem spares_empty : Ownership.empty.Spares observe where
  taken _ htaken := by
    obtain ⟨_, _, _, hget, -⟩ := htaken
    cases hget
  dropped _ _ _ _ hget := nomatch hget

end Ownership

variable {file : Option JournalFrame}

theorem Holds.wp_loadJournal {config : Config sv} {newJournalId : Witness.Id}
    {stores : List StoreOutcome}
    (hfile : ∀ frame, file = some frame → frame.state.owned.Rooted)
    (hspares : ∀ frame, file = some frame →
      frame.state.owned.Spares (sv.net.observeEffect config.kernel)) :
    wp (loadJournal sv newJournalId) (fun _ => AllRooted) (fun _ => AllRooted)
      ⟨.compose config, file, stores, []⟩ := by
  unfold loadJournal
  rw [wp_bind, wp_modify, wp_bind, wp_modify]
  refine Keeps.bind (I := AllRooted) (E := fun _ => AllRooted) (Keeps.ensure ?_ fun _ hs => hs)
    (fun _ => keeps_get.bind fun h => Keeps.ensure ?_ fun _ hs => hs) _ ?_
  · exact keeps_persist
  · exact keeps_withVerifier _ _
  cases file with
  | none =>
    have hspares : Ownership.empty.Spares (sv.net.observeEffect config.kernel) :=
      Ownership.spares_empty
    exact ⟨Ownership.Rooted.empty.recovered hspares, trivial, hfile, fun _ hmem => (nomatch hmem)⟩
  | some frame =>
    exact ⟨(hfile frame rfl).recovered (hspares frame rfl), trivial, hfile,
      fun _ hmem => (nomatch hmem)⟩

structure Daemon.Upright (d : Daemon sv) : Prop where
  running : d.running = true → d.host.owned.Rooted
  file : ∀ frame, d.host.file = some frame → frame.state.owned.Rooted

structure Received.Spares (r : Received) (h : Host sv) : Prop where
  content : ReachesPolicy h (sv.pk.frameContent (r.frame.drop 4)) →
    PolicyTakes h r.now (sv.pk.frameContent (r.frame.drop 4)) →
      (sv.pk.frameContent (r.frame.drop 4)).Spares sv.pk h.owned

/-- No step takes an overlay from an endpoint: no frame that is handled, wholly or in part, and no
recovery. -/
def Step.Spares (d : Daemon sv) : Step sv → Prop
  | .frame r | .crash r _ => d.running = true → r.Spares (r.start d.host)
  | .start config _ _ => ∀ frame, d.host.file = some frame →
    frame.state.owned.Spares (sv.net.observeEffect config.kernel)

theorem storedFile_rooted {calls : List Call}
    (hcalls : ∀ frame, .stored frame ∈ calls → frame.state.owned.Rooted)
    (hfile : ∀ frame, file = some frame → frame.state.owned.Rooted) (frame : JournalFrame)
    (hstored : storedFile calls file = some frame) : frame.state.owned.Rooted := by
  induction calls with
  | nil => exact hfile frame hstored
  | cons call calls ih =>
    have hrest := ih fun frame hmem => hcalls frame (List.mem_cons_of_mem _ hmem)
    cases call with
    | stored written =>
      cases hstored
      exact hcalls frame List.mem_cons_self
    | kernel call => exact hrest hstored
    | beginOverlayIntent identity => exact hrest hstored
    | applyLegacyDesired => exact hrest hstored
    | rollback scope => exact hrest hstored

theorem Received.handled_allRooted {d : Daemon sv} (h : d.Upright) (hrunning : d.running = true)
    {r : Received} (hspares : r.Spares (r.start d.host)) : AllRooted (r.handled d.host).2 :=
  after_of_wp (Holds.wp_handlePeer r.uid r.frame r.now
    ⟨h.running hrunning, trivial, h.file, fun _ hmem => nomatch hmem⟩ hspares.content)

theorem Daemon.Upright.apply {d : Daemon sv} (h : d.Upright) {s : Step sv} (hs : s.Spares d) :
    (s.apply d).Upright := by
  cases s with
  | frame r =>
    simp only [Step.apply]
    split_ifs with hrunning
    · have hall := Received.handled_allRooted h hrunning (hs hrunning)
      exact ⟨fun _ => hall.rooted, hall.file⟩
    · exact h
  | crash r count =>
    simp only [Step.apply]
    split_ifs with hrunning
    · have hall := Received.handled_allRooted h hrunning (hs hrunning)
      refine ⟨fun hstopped => (by cases hstopped), fun frame hstored => ?_⟩
      exact storedFile_rooted (fun frame hmem => hall.stored frame (List.mem_of_mem_drop hmem))
        h.file frame hstored
    · exact h
  | start config newJournalId stores =>
    have hall : AllRooted (Step.loaded config newJournalId stores d.host.file).2 :=
      after_of_wp (Holds.wp_loadJournal h.file hs)
    exact ⟨fun _ => hall.rooted, hall.file⟩

/-- **Endpoints keep their overlays.** In every run from an empty journal, whatever frames, stops
and starts it is made of, in which no step takes an overlay from an endpoint, every overlay that an
endpoint is attached to is owned or quarantined. -/
theorem endpoints_keep_overlays (host : Host sv) (hfile : host.file = none)
    (steps : List (Step sv))
    (hspares : Runs.Along Step.apply (fun d s => s.Spares d) (.stopped host) steps) :
    Runs.Throughout Step.apply (fun d => d.running = true → d.host.owned.ParentsOwned)
      (.stopped host) steps := by
  have hstart : (Daemon.stopped host).Upright :=
    ⟨fun hrunning => (nomatch hrunning), fun frame hframe => by
      rw [show (Daemon.stopped host).host.file = none from hfile] at hframe
      cases hframe⟩
  exact (hspares.invariant (fun d s hs h => h.apply hs) hstart).mono
    fun d h hrunning => (h.running hrunning).parentsOwned

/-! Three frames with their grants, signed: an overlay is applied, an endpoint is attached to it,
and the overlay is removed. -/

structure SignedRequest where
  revision : UInt64
  request : NetdRequest
  action : GrantAction
  digest : Nat
  envelopeSignature : String × Nat × Nat
  grantSignature : String × Nat × Nat

def halves (signature : String × Nat × Nat) : Witness.Signature :=
  ⟨toBe 32 signature.2.1 ++ toBe 32 signature.2.2, by simp⟩

namespace SignedRequest

def envelope (r : SignedRequest) (signature : String) : SignedEnvelope :=
  ⟨"c", "n", 1, r.revision, 100, r.request, signature⟩

def claims (r : SignedRequest) : GrantClaims where
  schemaVersion := 1
  requestId := match r.action with
    | .networkCreate => "request-2"
    | .networkAttach => "request-3"
    | _ => "request-4"
  action := r.action
  resource := ⟨"11111111-2222-3333-4444-555555555555", 1⟩
  parameterDigest := ⟨toBe 32 r.digest, by simp⟩
  bootId := "b"
  wallDeadlineSecs := 100
  monotonicDeadlineMillis := 100
  nonce := .fill 16 (UInt8.ofNat r.revision.toNat)
  operationId := .fill 16 (UInt8.ofNat r.revision.toNat)
  requestDigest := .fill 32 7
  preconditionDigest := .fill 32 8
  recoveryRecipeDigest := .fill 32 9
  issuer := "ferro-mgr"
  keyId := "key-1"
  kind := .mutation
  originRequestId := none
  liveIdentityDigest := none

def granted (r : SignedRequest) : GrantedEnvelope where
  handshake := ⟨"disabled", none, "b"⟩
  envelope := r.envelope r.envelopeSignature.1
  resourceUuid := "11111111-2222-3333-4444-555555555555"
  resourceGeneration := 1
  grant := ⟨r.claims, r.grantSignature.1⟩

def json (r : SignedRequest) : Bytes := r.granted.json []

end SignedRequest

def applyApp : SignedRequest where
  revision := 2
  request := .applyOverlay "app" .bridgeOnly [] [] []
  action := .networkCreate
  digest := 0x0a8b738fda387a626fc6d2f4da47eb02d9a06ff410f93a1aaada52c7f953f80d
  envelopeSignature :=
    ("wcZfhoQwI+l0hBs+eUKUOdac27aKznYs2MGm9yze2uEq42Uc19d9yxR1co39IdjUx99JmhItvkRRQjaWDSkrAw==",
    0xc1c65f86843023e974841b3e79429439d69cdbb68ace762cd8c1a6f72cdedae1,
    0x2ae3651cd7d77dcb1475728dfd21d8d4c7df499a122dbe44514236960d292b03)
  grantSignature :=
    ("Mt83AEeig3LgheibdrdZQpY5xHeQ58a85kOG6obkZI2LunE/TsafR9TGQBxnOc8JIy/CXOo3EW17GrRynkkSCQ==",
    0x32df370047a28372e085e89b76b759429639c47790e7c6bce64386ea86e4648d,
    0x8bba713f4ec69f47d4c6401c6739cf09232fc25cea37116d7b1ab4729e491209)

def attachWeb : SignedRequest where
  revision := 3
  request := .attachEndpoint "app" "web0" none
  action := .networkAttach
  digest := 0x7e3868e80a2d4af2f59c046ccf51c166d5f9b46abc4c2d3256778de2c7edfcac
  envelopeSignature :=
    ("WLGjXYv9r1fl7XHeqit16E+UKH2Q8mlhj42q1WKgmNuQZY1MJwqondkCjsLgX0rsiDB3MMLo/fAy9P7IQz/QAQ==",
    0x58b1a35d8bfdaf57e5ed71deaa2b75e84f94287d90f269618f8daad562a098db,
    0x90658d4c270aa89dd9028ec2e05f4aec88307730c2e8fdf032f4fec8433fd001)
  grantSignature :=
    ("chC5j8Ab6WBO8K91M/j1j/GKtgLfnjsWgbXvMS5DXu/nOtXdMPK0WHe6SIUul+Ntx3lnPv/g8n8CdrNO3rA9DA==",
    0x7210b98fc01be9604ef0af7533f8f58ff18ab602df9e3b1681b5ef312e435eef,
    0xe73ad5dd30f2b45877ba48852e97e36dc779673effe0f27f0276b34edeb03d0c)

def removeApp : SignedRequest where
  revision := 4
  request := .removeOverlay "app"
  action := .networkDelete
  digest := 0x8e6c841facdca63ad66dd104eeb5e75d5dd70a8a89bf3c6800d0a57128bec1cd
  envelopeSignature :=
    ("WEJKxpeQ5Ssyf72qoSFjW3oWyFlPPLg+oU6xR5sxUrVYZ6LRBWEdvChp8ZulWaHZbi9RV8QMO7p7mmm4GIv6Dg==",
    0x58424ac69790e52b327fbdaaa121635b7a16c8594f3cb83ea14eb1479b3152b5,
    0x5867a2d105611dbc2869f19ba559a1d96e2f5157c40c3bba7b9a69b8188bfa0e)
  grantSignature :=
    ("eCVxMULf2l9692f40zS+1XpD4QSDscdzC39IMAVWv+n1TFwrYmfEYmCo+B56/gemZ8A8pZAivfMwWffQAGGCCQ==",
    0x7825713142dfda5f7af767f8d334bed57a43e10483b1c7730b7f48300556bfe9,
    0xf54c5c2b6267c46260a8f81e7afe07a667c03ca59022bdf33059f7d000618209)

def signedRequests : List SignedRequest := [applyApp, attachWeb, removeApp]

def lifePackages : Packages where
  ed := .recorded clusterKey (signedRequests.flatMap fun r =>
    [((r.envelope "").json [], halves r.envelopeSignature),
      (r.claims.signingBytes, halves r.grantSignature)])
  -- the same digest as `Sha256.sha256`, by `sha256_eq_unrolled`
  sha256 := Sha256.unrolled
  isAlphanumeric := Char.isAlphanum
  base64Decode text := ((signedRequests.flatMap fun r =>
    [r.envelopeSignature, r.grantSignature]).map fun signature =>
      (signature.1, (halves signature).val)).lookup text
  base64Encode _ := ""
  isIpNet _ := false
  isSocketAddr _ := false
  readsGrantedDesired _ := false
  readDesired _ := none
  readGranted bytes := (signedRequests.find? fun r => bytes = r.json).map (·.granted)
  readSigned _ := none
  decodeDesired _ := none
  desiredJson _ := none
  signedJson envelope := some (envelope.json [])
  stringJson text := some (jsonText text [])
  optionJson text := some ((text.map jsonText).getD jsonNull [])
  stringsJson texts := if texts = [] then some "[]" else none
  peersJson peers := if peers = [] then some "[]" else none
  peerKeysJson keys := if keys = [] then some (utf8 "[]") else none

def lifeServices : Services Unit GrantLedger where
  pk := lifePackages
  net := {
    observeLink := fun _ _ => false
    observeEffect := fun _ _ => .exact
    netnsInode := fun _ _ => none
    perform := fun _ kernel => (true, kernel)
  }
  verifier := {
    verifyAndConsume := fun grant action uuid generation parameters now =>
      GrantVerifier.verifyAndConsume lifePackages (fun grant => some (grantJson grant []))
        ⟨OrdMap.empty.insert "key-1" clusterKey, "ferro-mgr", "b"⟩ grant action uuid generation
        parameters now 0
    armEffectTarget := fun consumed receipt => GrantVerifier.armEffectTarget consumed receipt
    recordResult := fun consumed identity outcome ledger =>
      let (result, ledger) := GrantVerifier.recordResult consumed identity outcome ledger
      (result.isOk, ledger)
    recordFailure := fun consumed identity outcome ledger =>
      let (result, ledger) := GrantVerifier.recordFailure consumed identity outcome ledger
      (result.isOk, ledger)
    markOutcomeUnknown := fun nonce identity receipt ledger =>
      let (result, ledger) :=
        GrantLedger.markOutcomeUnknown nonce (some identity) (some receipt) ledger
      (result.isOk, ledger)
    reconcileUnknown := fun observe ledger =>
      let (result, ledger) := GrantLedger.reconcileUnknown observe ledger
      (result.isOk, ledger)
  }

def lifeConfig : Config lifeServices where
  uid := 1000
  cluster := "c"
  node := "n"
  key := clusterKey
  grants := some ⟨.empty, none, []⟩
  authorizationIdentity := some (⟨.disabled, .zero 32⟩, "b")
  kernel := ()

def lifeHost : Host lifeServices := ⟨.compose lifeConfig, none, [], []⟩

def lifeStart : Step lifeServices := .start lifeConfig (.fill 16 7) []

def SignedRequest.received (r : SignedRequest) : Received := ⟨1000, framed r.json, 50, []⟩

def lifeApplied : Daemon lifeServices :=
  (Daemon.stopped lifeHost).run [lifeStart, .frame applyApp.received]

def lifeStopped : Daemon lifeServices :=
  (Daemon.stopped lifeHost).run
    [lifeStart, .frame applyApp.received, .crash attachWeb.received 7]

def lifeRecovered : Daemon lifeServices :=
  (Daemon.stopped lifeHost).run
    [lifeStart, .frame applyApp.received, .crash attachWeb.received 7, lifeStart]

def lifeRemoved : Daemon lifeServices :=
  (Daemon.stopped lifeHost).run
    [lifeStart, .frame applyApp.received, .frame attachWeb.received, .frame removeApp.received]

-- All that the runs are asked for, in one evaluation of their common start.
theorem life_runs :
    lifeApplied.host.owned.overlays.contains "app" = true ∧
    (lifeStopped.host.file.all (fun frame => frame.state.owned.overlays.contains "app" &&
      frame.state.owned.overlayIntents.entries.all fun entry => entry.2.desired.expectedExists &&
        (entry.2.kept fun _ => .exact).all fun receipt =>
          decide (receipt.endpointOverlay ∈ [none, some "app"])) = true) ∧
    (lifeRecovered.running = true ∧
      lifeRecovered.host.owned.endpoints.get "web0" = some "app") ∧
    lifeRemoved.running = true ∧
    lifeRemoved.host.owned.endpoints.get "web0" = some "app" ∧
    lifeRemoved.host.owned.overlayIsQuarantined "app" = false ∧
    lifeRemoved.host.owned.overlays.contains "app" = false := by
  decide +kernel

theorem Received.owned_start (r : Received) (h : Host sv) : (r.start h).owned = h.owned := rfl

theorem attachWeb_spares : FrameContent.Spares lifePackages
    (attachWeb.received.start lifeApplied.host).owned (.granted attachWeb.granted) := by
  rw [FrameContent.Spares, Received.owned_start]
  exact .inr (.inl life_runs.1)

theorem applyApp_content :
    lifePackages.frameContent (applyApp.received.frame.drop 4) = .granted applyApp.granted := by
  decide +kernel

theorem attachWeb_content :
    lifePackages.frameContent (attachWeb.received.frame.drop 4) = .granted attachWeb.granted := by
  decide +kernel

/-- The helper stops before the attached endpoint is recorded; the next start takes it over from
the intent, with the overlay it has. -/
theorem recovered_endpoint_keeps_overlay :
    Runs.Throughout Step.apply (fun d => d.running = true → d.host.owned.ParentsOwned)
        (.stopped lifeHost)
        [lifeStart, .frame applyApp.received, .crash attachWeb.received 7, lifeStart] ∧
      lifeRecovered.running = true ∧
      lifeRecovered.host.owned.endpoints.get "web0" = some "app" := by
  refine ⟨endpoints_keep_overlays _ rfl _ ⟨?_, ?_, ?_, ?_, trivial⟩, life_runs.2.2.1⟩
  · intro frame hframe
    cases hframe
  · refine fun _ => ⟨fun _ _ => ?_⟩
    show FrameContent.Spares lifePackages _
      (lifePackages.frameContent (applyApp.received.frame.drop 4))
    rw [applyApp_content]
    exact .inr trivial
  · refine fun _ => ⟨fun _ _ => ?_⟩
    show FrameContent.Spares lifePackages _
      (lifePackages.frameContent (attachWeb.received.frame.drop 4))
    rw [attachWeb_content]
    exact attachWeb_spares
  · intro frame hframe
    have hfile : lifeStopped.host.file = some frame := hframe
    have hjournal := life_runs.2.1
    rw [hfile, Option.all_some, Bool.and_eq_true,
      List.all_eq_true] at hjournal
    obtain ⟨happ, hintents⟩ := hjournal
    have hintent {identity : String} {intent : OverlayMutationIntent}
        (hget : frame.state.owned.overlayIntents.get identity = some intent) :=
      hintents _ ((OrdMap.get_eq_some_iff _).mp hget)
    constructor
    · rintro overlay ⟨endpoint, intent, receipt, hget, hkept, hoverlay⟩
      have htaken := (Bool.and_eq_true_iff.mp (hintent hget)).2
      rw [show (intent.kept fun _ => .exact) = some receipt from hkept, Option.all_some,
        decide_eq_true_eq, hoverlay] at htaken
      have happ' : overlay = "app" := by simpa using htaken
      exact .inl (happ' ▸ happ)
    · intro overlay _ identity intent hget hgone
      have hexists := (Bool.and_eq_true_iff.mp (hintent hget)).1
      rw [hgone.2.2] at hexists
      cases hexists

/-- `app` is removed while `web0` is attached to it. -/
theorem endpoint_without_overlay :
    ¬ ∀ host : Host lifeServices, host.file = none → ∀ steps,
      Runs.Throughout Step.apply (fun d => d.running = true → d.host.owned.ParentsOwned)
        (.stopped host) steps := by
  intro h
  obtain ⟨hrunning, hattached, hquarantined, hgone⟩ := life_runs.2.2.2
  have hlast : lifeRemoved.running = true → lifeRemoved.host.owned.ParentsOwned :=
    (h lifeHost rfl [lifeStart, .frame applyApp.received, .frame attachWeb.received,
      .frame removeApp.received]).last
  have howned := hlast hrunning "web0" "app" hattached hquarantined
  rw [hgone] at howned
  cases howned

end Ferrocrate.Netd
