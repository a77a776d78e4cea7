import Ferrocrate.Lib.Loops
import Ferrocrate.Netd.Parents
import Ferrocrate.Netd.Rejection

/-! A frame that takes no overlay away from an endpoint leaves every endpoint attached to an owned
overlay: one lemma for each executor, and one for desired states. -/
namespace Ferrocrate.Netd
open Lib
open Lib.Program
variable {κ γ ε : Type} {sv : Services κ γ}

theorem isLegacyIdentity_fromRequest (pk : Packages) (netnsInode : String → Option UInt64)
    (request : NetdRequest) (generation epoch revision : UInt64) :
    (EffectReceipt.fromRequest pk netnsInode request generation epoch revision).isLegacyIdentity
      = false := by
  cases request <;> rfl

namespace Holds
variable {P : OrdSet String → OrdMap String String → Prop}

theorem keeps_rejectEffect (d : Dispatch) (started : Bool) (code : RejectionCode)
    (reason identity : String) :
    Keeps (Holds P) (fun _ => AllRooted) (rejectEffect sv d started code reason identity) := by
  have hrecord : Keeps (Holds P) (fun _ => AllRooted)
      (recordRefusal sv d started reason identity) := by
    cases started with
    | true => exact (keeps_markOverlayIntent _ _).bind fun _ => keeps_withVerifier _ _
    | false => exact keeps_withVerifier _ _
  exact (hrecord.ensure fun _ hs => hs.all).bind fun _ => keeps_throw fun _ hs => hs.all

theorem keeps_checkpoint (d : Dispatch) (identity : String) (phase : IntentPhase) :
    Keeps (Holds P) (fun _ => AllRooted) (checkpoint sv d identity phase) :=
  (keeps_markOverlayIntent identity phase).whenFails (keeps_rejectEffect _ _ _ _ _)

theorem keeps_effectStep (d : Dispatch) (identity : String) (call : KernelCall)
    (phase : IntentPhase) (reason : String) :
    Keeps (Holds P) (fun _ => AllRooted) (effectStep sv d identity call phase reason) :=
  ((keeps_perform call).whenFails (keeps_rejectEffect _ _ _ _ _)).bind fun _ =>
    keeps_checkpoint d identity phase

theorem keeps_finish (d : Dispatch) (identity outcome : String) (response : NetdResponse) :
    Keeps (Holds P) (fun _ => AllRooted) (finish sv d identity outcome response) := by
  refine Keeps.bind (Keeps.ensure ?_ fun _ hs => hs.all) fun _ => keeps_pure response
  exact keeps_withVerifier _ _

theorem keeps_storeOwnership (d : Dispatch) (identity reason : String)
    {beforehand : Handler sv Unit} (hb : Keeps (Holds P) (fun _ => AllRooted) beforehand) :
    Keeps (Holds P) (fun _ => AllRooted) (storeOwnership sv d identity reason beforehand) :=
  keeps_persist.whenFails (hb.bind fun _ => (keeps_quarantine _).bind fun _ =>
    keeps_rejectEffect _ _ _ _ _)

theorem keeps_applyWireguard (d : Dispatch) (identity : String) (interfaces : OverlayInterfaces)
    (createdBridge : Bool) (addresses : List String) (peers : List PeerSpec) :
    Keeps (Holds P) (fun _ => AllRooted)
      (applyWireguard sv d identity interfaces createdBridge addresses peers) := by
  refine Keeps.bind ((keeps_perform _).whenFails ?_) fun _ =>
    (keeps_checkpoint _ _ _).bind fun _ => keeps_effectStep _ _ _ _ _
  refine Keeps.bind (Keeps.runIf _ ?_) fun _ => keeps_rejectEffect _ _ _ _ _
  exact (keeps_perform _).bind fun _ => keeps_pure _

theorem keeps_applyRoute (d : Dispatch) (identity routeInterface : String)
    (route : String × Nat) :
    Keeps (Holds P) (fun _ => AllRooted) (applyRoute sv d identity routeInterface route) := by
  refine Keeps.bind ((keeps_perform _).whenFails ?_) fun _ => keeps_checkpoint _ _ _
  exact (keeps_rollback _ _ _).bind fun _ => keeps_rejectEffect _ _ _ _ _

theorem keeps_executeApply (d : Dispatch) (hd : d.receipt.isLegacyIdentity = false)
    (overlayId : String) (mode : OverlayMode) (peers : List PeerSpec)
    (routes addresses : List String) :
    Keeps AllRooted (fun _ => AllRooted)
      (executeApply sv d overlayId mode peers routes addresses) := by
  refine keeps_get.bind fun h => ?_
  refine ((keeps_beginOverlayIntent _ _ _ _ hd).whenFails (keeps_rejectEffect _ _ _ _ _)).bind
    fun _ => ?_
  refine (Keeps.runIf _ (keeps_effectStep _ _ _ _ _)).bind fun _ => ?_
  refine (Keeps.runIf _ (keeps_applyWireguard _ _ _ _ _ _)).bind fun _ => ?_
  refine (keeps_forM fun _ => keeps_effectStep _ _ _ _ _).bind fun _ => ?_
  refine (keeps_forM fun _ => keeps_applyRoute _ _ _ _).bind fun _ => ?_
  refine (keeps_forSome fun _ => keeps_forM fun _ => keeps_effectStep _ _ _ _ _).bind fun _ => ?_
  refine (keeps_forM fun _ => keeps_effectStep _ _ _ _ _).bind fun _ => ?_
  refine Keeps.bind (Keeps.runIf _ (keeps_effectStep _ _ _ _ _)) fun _ => Keeps.bind ?_ fun _ =>
    (keeps_storeOwnership _ _ _ (keeps_rollback _ _ _)).bind fun _ => keeps_finish _ _ _ _
  intro h hs
  exact hs.turn ((hs.rooted.own hd overlayId _ _).succeeded _) trivial

def Detached (overlays : OrdSet String) (overlay : String) (overlays' : OrdSet String)
    (endpoints : OrdMap String String) : Prop :=
  overlays' = overlays ∧ ∀ endpoint, endpoints.get endpoint ≠ some overlay

theorem wp_removeOwned (d : Dispatch) {overlays : OrdSet String} {overlayId : String}
    {h : Host sv} (hs : Holds (Detached overlays overlayId) h) :
    wp (removeOwned sv d overlayId)
      (fun _ => Holds fun overlays _ => overlays.contains overlayId = false)
      (fun _ => AllRooted) h := by
  unfold removeOwned
  rw [wp_bind, wp_get]
  refine wp_bind_of_keeps (keeps_forM fun _ => keeps_effectStep _ _ _ _ _) hs fun _ h hs => ?_
  refine wp_bind_of_keeps (keeps_forM fun _ => keeps_effectStep _ _ _ _ _) hs fun _ h hs => ?_
  rw [wp_bind, wp_get]
  refine wp_bind_of_keeps (Keeps.runIf _ ((keeps_perform _).whenFails
    (keeps_rejectEffect _ _ _ _ _))) hs fun _ h hs => ?_
  rw [wp_bind, wp_get]
  refine wp_bind_of_keeps (Keeps.runIf _ (keeps_checkpoint _ _ _)) hs fun _ h hs => ?_
  refine wp_bind_of_keeps (keeps_effectStep _ _ _ _ _) hs fun _ h hs => ?_
  refine hs.turn (hs.rooted.disown hs.names.2 _ _) ?_
  rw [OrdMap.contains, OrdMap.get_erase_self]
  rfl

theorem wp_executeRemove (d : Dispatch) (hd : d.receipt.isLegacyIdentity = false)
    {overlayId : String} {h : Host sv}
    (hs : Holds (fun _ endpoints => ∀ endpoint, endpoints.get endpoint ≠ some overlayId) h) :
    wp (executeRemove sv d overlayId) (fun _ => AllRooted) (fun _ => AllRooted) h := by
  unfold executeRemove
  rw [wp_bind, wp_get]
  have hdetached : Holds (Detached h.owned.overlays overlayId) h := hs.mono ⟨rfl, hs.names⟩
  refine wp_bind_of_keeps ((keeps_beginOverlayIntent _ _ _ _ hd).whenFails
    (keeps_rejectEffect _ _ _ _ _)) hdetached fun _ h' hs => ?_
  rw [wp_bind]
  have hremoved : wp (runIf (h.owned.overlays.contains overlayId = true)
      (removeOwned sv d overlayId))
      (fun _ => Holds fun overlays _ => overlays.contains overlayId = false)
      (fun _ => AllRooted) h' := by
    refine (wp_runIf _ _ _ _ _).mpr ⟨fun _ => wp_removeOwned d hs, fun hnot => hs.mono ?_⟩
    rw [hs.names.1]
    exact Bool.eq_false_iff.mpr hnot
  refine wp_mono hremoved (fun _ h hs => ?_) fun _ _ hs => hs
  refine Keeps.bind (I := AllRooted) (keeps_persist.whenFails ((keeps_quarantine _).bind fun _ =>
    keeps_rejectEffect _ _ _ _ _)) (fun _ => keeps_finish _ _ _ _) _ (hs.turn ?_ trivial)
  refine (hs.rooted.dropReceipt fun overlay howned heq => ?_).succeeded _
  rw [overlay_inj.mp heq, hs.names] at howned
  cases howned

theorem keeps_abandonEndpoint (d : Dispatch) (endpointId : String) (code : RejectionCode)
    (reason : String) :
    Keeps (Holds P) (fun _ => AllRooted) (abandonEndpoint sv d endpointId code reason) :=
  (keeps_perform _).bind fun _ => keeps_rejectEffect _ _ _ _ _

theorem keeps_attachAgain (d : Dispatch) (overlayId endpointId existing : String) :
    Keeps (Holds P) (fun _ => AllRooted) (attachAgain sv d overlayId endpointId existing) := by
  refine keeps_get.bind fun h => Keeps.bind (Keeps.runIf _ ?_) fun _ => keeps_finish _ _ _ _
  exact keeps_rejectEffect _ _ _ _ _

theorem keeps_attachNew (d : Dispatch) (hd : d.receipt.isLegacyIdentity = false)
    (overlayId endpointId : String) (netns : Option String) :
    Keeps (Holds fun overlays _ => overlays.contains overlayId = true) (fun _ => AllRooted)
      (attachNew sv d overlayId endpointId netns) := by
  refine Keeps.bind ((keeps_beginOverlayIntent _ _ _ _ hd).whenFails
    (keeps_rejectEffect _ _ _ _ _)) fun _ => ?_
  refine (keeps_effectStep _ _ _ _ _).bind fun _ => ?_
  refine Keeps.bind (Keeps.runIf _ (keeps_abandonEndpoint _ _ _ _)) fun _ => ?_
  refine Keeps.bind ((keeps_perform _).whenFails (keeps_abandonEndpoint _ _ _ _)) fun _ => ?_
  refine (keeps_checkpoint _ _ _).bind fun _ => Keeps.bind (keeps_forSome fun _ => ?_) fun _ => ?_
  · exact ((keeps_perform _).whenFails (keeps_abandonEndpoint _ _ _ _)).bind fun _ =>
      keeps_checkpoint _ _ _
  · refine Keeps.bind ?_ fun _ =>
      (keeps_storeOwnership _ _ _ (keeps_pure _)).bind fun _ => keeps_finish _ _ _ _
    intro h hs
    exact hs.turn ((hs.rooted.attach hs.names hd endpointId).succeeded _) hs.names

theorem wp_executeAttach (d : Dispatch) (hd : d.receipt.isLegacyIdentity = false)
    (overlayId endpointId : String) (netns : Option String) {h : Host sv}
    (hs : Holds (fun overlays endpoints => overlays.contains overlayId = true ∨
      endpoints.get endpointId ≠ none) h) :
    wp (executeAttach sv d overlayId endpointId netns) (fun _ => AllRooted) (fun _ => AllRooted)
      h := by
  unfold executeAttach
  rw [wp_bind, wp_get]
  cases hget : h.owned.endpoints.get endpointId with
  | some existing => exact keeps_attachAgain _ _ _ _ h hs.all
  | none =>
    have howned := hs.names.resolve_right (not_not_intro hget)
    exact wp_mono (keeps_attachNew _ hd _ _ _ h (hs.mono howned)) (fun _ _ hs => hs.all)
      fun _ _ hs => hs

theorem keeps_detachUnknown (d : Dispatch) (identity reason : String) :
    Keeps (Holds P) (fun _ => AllRooted) (detachUnknown sv d identity reason) := by
  refine (keeps_markOverlayIntent _ _).bind fun _ => ?_
  refine Keeps.bind (Keeps.ensure ?_ fun _ hs => hs.all) fun _ => keeps_throw fun _ hs => hs.all
  exact keeps_withVerifier _ _

theorem keeps_refuseDetach (d : Dispatch) (identity : String) (code : RejectionCode)
    (recorded reason : String) :
    Keeps (Holds P) (fun _ => AllRooted) (refuseDetach sv d identity code recorded reason) := by
  refine Keeps.bind ?_ fun _ => keeps_throw fun _ hs => hs.all
  exact keeps_withVerifier _ _

theorem keeps_executeDetach (d : Dispatch) (hd : d.receipt.isLegacyIdentity = false)
    (overlayId endpointId : String) :
    Keeps AllRooted (fun _ => AllRooted) (executeDetach sv d overlayId endpointId) := by
  refine keeps_get.bind fun h =>
    Keeps.bind (Keeps.runIf _ (keeps_refuseDetach _ _ _ _ _)) fun _ => ?_
  refine ((keeps_beginOverlayIntent _ _ _ _ hd).whenFails (keeps_refuseDetach _ _ _ _ _)).bind
    fun _ => Keeps.bind (Keeps.runIf _ ?_) fun _ => Keeps.bind ?_ fun _ => ?_
  · refine ((keeps_perform _).whenFails (keeps_detachUnknown _ _ _)).bind fun _ => ?_
    refine Keeps.bind ((keeps_markOverlayIntent _ _).whenFails (keeps_detachUnknown _ _ _))
      fun _ h hs => ?_
    exact hs.turn (hs.rooted.detach endpointId) trivial
  · intro h hs
    refine hs.turn ((hs.rooted.dropReceipt fun overlay _ => ?_).succeeded _) trivial
    exact overlay_ne_endpoint overlay endpointId
  · refine Keeps.bind (keeps_persist.whenFails ?_) fun _ => keeps_finish _ _ _ _
    exact (keeps_quarantine _).bind fun _ => keeps_detachUnknown _ _ _

end Holds

def DesiredStateEnvelope.Spares (pk : Packages) (endpoints : OrdMap String String)
    (envelope : DesiredStateEnvelope) : Prop :=
  ∀ state, pk.decodeDesired envelope.desiredState = some state →
    ∀ endpoint overlay, endpoints.get endpoint = some overlay →
      overlay ∈ state.overlays.map (·.overlayId)

/-- A request takes no overlay from an endpoint: it does not remove one that an endpoint has, and
it attaches a new endpoint to an owned one. -/
def NetdRequest.Spares (overlays : OrdSet String) (endpoints : OrdMap String String) :
    NetdRequest → Prop
  | .removeOverlay overlayId => ∀ endpoint, endpoints.get endpoint ≠ some overlayId
  | .attachEndpoint overlayId endpointId _ =>
    overlays.contains overlayId = true ∨ endpoints.get endpointId ≠ none
  | .applyOverlay _ _ _ _ _ | .detachEndpoint _ _ | .inspect _ => True

namespace Holds

variable {h : Host sv}

theorem wp_execute (d : Dispatch) (hd : d.receipt.isLegacyIdentity = false)
    (hs : Holds (fun overlays endpoints => d.envelope.request.Spares overlays endpoints) h) :
    wp (execute sv d) (fun _ => AllRooted) (fun _ => AllRooted) h := by
  have hnames := hs.names
  unfold execute
  cases hrequest : d.envelope.request with
  | applyOverlay overlayId mode peers routes addresses =>
    exact keeps_executeApply d hd _ _ _ _ _ h hs.all
  | removeOverlay overlayId =>
    rw [hrequest] at hnames
    exact wp_executeRemove d hd (hs.mono hnames)
  | attachEndpoint overlayId endpointId netns =>
    rw [hrequest] at hnames
    exact wp_executeAttach d hd _ _ _ (hs.mono hnames)
  | detachEndpoint overlayId endpointId => exact keeps_executeDetach d hd _ _ h hs.all
  | inspect overlayId => exact keeps_finish _ _ _ _ h hs.all

/-! Desired states. -/

def Named (wanted : List String) (_ : OrdSet String) (endpoints : OrdMap String String) : Prop :=
  ∀ endpoint overlay, endpoints.get endpoint = some overlay → overlay ∈ wanted

theorem keeps_legacyStep (identity : String) (call : KernelCall) (phase : IntentPhase) :
    Keeps (Holds P) (fun _ => AllRooted) (legacyStep sv identity call phase) := by
  refine Keeps.bind (Keeps.ensure ?_ fun _ hs => hs.all) fun _ =>
    Keeps.ensure ?_ fun _ hs => hs.all
  · exact keeps_perform call
  · exact keeps_markOverlayIntent identity phase

theorem keeps_legacyRemove (envelope : DesiredStateEnvelope) {wanted : List String}
    {overlay : String} (hunwanted : overlay ∉ wanted) :
    Keeps (Holds (Named wanted)) (fun _ => AllRooted) (legacyRemove sv envelope overlay) := by
  refine Keeps.bind (Keeps.ensure (keeps_beginOverlayIntent _ _ _ _ rfl) fun _ hs => hs.all)
    fun _ => ?_
  refine keeps_get.bind fun h => (keeps_forSome fun _ => keeps_legacyStep _ _ _).bind fun _ => ?_
  refine (keeps_forSome fun _ => keeps_legacyStep _ _ _).bind fun _ => keeps_get.bind fun h => ?_
  refine (Keeps.runIf _ (keeps_legacyStep _ _ _)).bind fun _ => ?_
  refine Keeps.bind (keeps_legacyStep _ _ _) fun _ h hs => ?_
  have hfree : ∀ endpoint, h.owned.endpoints.get endpoint ≠ some overlay :=
    fun endpoint hparent => hunwanted (hs.names endpoint overlay hparent)
  have hdisowned := hs.rooted.disown hfree (h.owned.routes.erase overlay)
    (h.owned.addresses.erase overlay)
  refine hs.turn ((hdisowned.dropReceipt fun owned howned heq => ?_).succeeded _) hs.names
  rw [overlay_inj.mp heq, OrdMap.contains, OrdMap.get_erase_self] at howned
  cases howned

theorem keeps_legacyApply (envelope : DesiredStateEnvelope) (wanted : List String)
    (overlay : OverlayState) :
    Keeps (Holds (Named wanted)) (fun _ => AllRooted) (legacyApply sv envelope overlay) := by
  refine keeps_get.bind fun h => ?_
  have hreceipt := isLegacyIdentity_fromRequest sv.pk (sv.net.netnsInode h.server.kernel)
    (.applyOverlay overlay.overlayId
      (if overlay.wireguard = some true then OverlayMode.wireGuard else .bridgeOnly)
      (overlay.peers.map (PeerSpec.ofDesired sv)) overlay.routes overlay.addresses)
    envelope.revision envelope.epoch envelope.revision
  refine Keeps.bind (Keeps.ensure (keeps_beginOverlayIntent _ _ _ _ hreceipt) fun _ hs => hs.all)
    fun _ => ?_
  refine keeps_get.bind fun h => (Keeps.runIf _ (keeps_legacyStep _ _ _)).bind fun _ => ?_
  refine (Keeps.runIf _ ((keeps_legacyStep _ _ _).bind fun _ => keeps_legacyStep _ _ _)).bind
    fun _ => ?_
  refine (keeps_legacyStep _ _ _).bind fun _ => (keeps_legacyStep _ _ _).bind fun _ => ?_
  refine (Keeps.runIf _ (keeps_legacyStep _ _ _)).bind fun _ => ?_
  refine Keeps.bind (keeps_legacyStep _ _ _) fun _ h hs => ?_
  exact hs.turn ((hs.rooted.own hreceipt overlay.overlayId _ _).succeeded _) hs.names

theorem wp_applyLegacyDesired (envelope : DesiredStateEnvelope)
    (hs : Holds (fun _ endpoints => envelope.Spares sv.pk endpoints) h) :
    wp (applyLegacyDesired sv envelope) (fun _ => AllRooted) (fun _ => AllRooted) h := by
  have hnoted : Holds (fun _ endpoints => envelope.Spares sv.pk endpoints)
      (h.noting .applyLegacyDesired) := hs.noting fun frame heq => by cases heq
  unfold applyLegacyDesired
  rw [wp_bind, wp_modify, applyDesired, wp_bind, wp_okOr]
  refine ⟨fun desired hdecode => ?_, fun _ => hnoted.all⟩
  refine wp_mono (Q := fun _ => Holds (Named (desired.overlays.map (·.overlayId)))) ?_
    (fun _ _ hs => hs.all) fun _ _ hs => hs
  refine Keeps.bind (keeps_rejectIf fun _ hs => hs.all) (fun _ => ?_) _
    (hnoted.mono (hs.names desired hdecode))
  refine Keeps.bind (keeps_rejectIf fun _ hs => hs.all) fun _ => keeps_get.bind fun h => ?_
  refine Keeps.bind (keeps_rejectIf fun _ hs => hs.all) fun _ => ?_
  refine Keeps.bind (fun h hs => wp_forM (fun overlay hmem => ?_) hs) fun _ => ?_
  · exact keeps_legacyRemove envelope (of_decide_eq_true (List.mem_filter.mp hmem).2)
  · refine (keeps_forM fun overlay => keeps_legacyApply envelope _ overlay).bind fun _ => ?_
    exact Keeps.bind (Keeps.ensure keeps_persist fun _ hs => hs.all) fun _ => keeps_pure _

theorem wp_admitDesired (desired : DesiredStateEnvelope) (now : UInt64)
    (hs : Holds P h) :
    wp (admitDesired sv desired now) (fun _ h' => Holds P h' ∧
        ReachesPolicy h (.desired desired) ∧ PolicyTakes h now (.desired desired))
      (fun _ => AllRooted) h := by
  unfold admitDesired
  rw [wp_bind]
  refine ((readOnly_checkDesiredIdentity desired).wp _ _ _).mpr ⟨fun _ hreaches => ?_,
    fun _ _ => hs.all⟩
  rw [wp_bind, wp_get, wp_bind, wp_ofExcept]
  refine ⟨fun policy hpolicy => ?_, fun _ _ => hs.all⟩
  rw [wp_bind, wp_modify]
  have htakes : PolicyTakes h now (.desired desired) := by
    rw [PolicyTakes, hpolicy]
    rfl
  refine wp_mono (Keeps.whenFails (I := Holds P) keeps_persist ?_ _ (hs.withPolicy policy))
    (fun _ _ hs => ⟨hs, hreaches, htakes⟩) fun _ _ hs => hs
  exact (keeps_rollback _ _ _).bind fun _ => keeps_throw fun _ hs => hs.all

theorem wp_tryLegacyFrame (bytes : Bytes) (now : UInt64) (hs : AllRooted h)
    (hspares : ∀ envelope, sv.pk.frameContent bytes = .desired envelope →
      ReachesPolicy h (.desired envelope) → PolicyTakes h now (.desired envelope) →
        envelope.Spares sv.pk h.owned.endpoints) :
    wp (tryLegacyFrame sv bytes now)
      (fun _ h' => h' = h ∧ sv.pk.readsGrantedDesired bytes ≠ true ∧
        sv.pk.readDesired bytes = none) (fun _ => AllRooted) h := by
  unfold tryLegacyFrame
  rw [wp_bind, wp_rejectIf]
  refine ⟨fun _ => hs, fun hbulk => ?_⟩
  cases hread : sv.pk.readDesired bytes with
  | none => exact ⟨rfl, hbulk, rfl⟩
  | some desired =>
    have hcontent : sv.pk.frameContent bytes = .desired desired := by
      rw [Packages.frameContent, if_neg hbulk, hread]
    show wp (admitDesired sv desired now >>= fun _ => _) _ _ h
    rw [wp_bind]
    have hstart : Holds (fun _ endpoints => endpoints = h.owned.endpoints) h := hs.mono rfl
    refine wp_mono (wp_admitDesired desired now hstart) (fun _ h' hadmitted => ?_)
      fun _ _ hs => hs
    obtain ⟨hs', hreaches, htakes⟩ := hadmitted
    rw [wp_bind, wp_caught]
    have hwanted := hspares desired hcontent hreaches htakes
    rw [← hs'.names] at hwanted
    refine wp_mono (wp_applyLegacyDesired desired (hs'.mono hwanted)) (fun response h hs => hs)
      fun code h hs => ?_
    have hrefused : Refuses AllRooted (fun _ => AllRooted)
        (answerDesired sv desired (.error code)) :=
      (keeps_rollback _ _ _).refuses fun _ => refuses_throw fun _ hs => hs.all
    exact wp_mono (hrefused h hs) (fun _ _ hfalse => hfalse.elim) fun _ _ hs => hs

theorem refuses_refuseUngranted (bytes : Bytes) (now : UInt64) :
    Refuses (Holds P) (fun _ => AllRooted) (refuseUngranted sv bytes now) := by
  refine Keeps.refuses (keeps_okOr fun _ hs => hs.all) fun legacy =>
    keeps_get.refuses fun h => Keeps.refuses ?_ fun policy => ?_
  · exact fun h hs => (wp_ofExcept _ _ _ _ _).mpr ⟨fun _ _ => hs, fun _ _ => hs.all⟩
  · exact (keeps_modify fun _ hs => hs.withPolicy policy).refuses fun _ =>
      refuses_throw fun _ hs => hs.all

theorem refuses_rollbackAndRefuse (envelope : SignedEnvelope) (code : RejectionCode)
    (reason : String) :
    Refuses (Holds P) (fun _ => AllRooted) (rollbackAndRefuse sv envelope code reason) :=
  (keeps_rollback _ _ _).refuses fun _ => refuses_throw fun _ hs => hs.all

theorem wp_spendGrant (granted : GrantedEnvelope) (now : UInt64) (hs : Holds P h) :
    wp (spendGrant sv granted now) (fun d h' => Holds P h' ∧
        d.receipt.isLegacyIdentity = false ∧ d.envelope = granted.envelope ∧
        h.owned.requestIsQuarantined granted.envelope.request = false)
      (fun _ => AllRooted) h := by
  unfold spendGrant
  rw [wp_bind, wp_ofExcept]
  refine ⟨fun bound _ => ?_, fun _ _ => hs.all⟩
  rw [wp_bind, wp_get, wp_bind, wp_runIf]
  refine ⟨fun _ => ?_, fun hfree => ?_⟩
  · exact wp_mono (refuses_rollbackAndRefuse _ _ _ h hs) (fun _ _ hfalse => hfalse.elim)
      fun _ _ hs => hs
  refine wp_bind_of_keeps (keeps_consumeGrant (fun g hs => hs.withGrants g) _ _ _ _ _ _ _) hs
    fun consumed h' hs => ?_
  have hgrant : Keeps (Holds P) (fun _ => AllRooted)
      (refuseGrant sv granted.envelope consumed) := by
    cases consumed with
    | ok _ => exact keeps_pure _
    | error code => exact (refuses_rollbackAndRefuse _ _ _).keeps
  refine wp_bind_of_keeps hgrant hs fun _ h' hs => ?_
  refine wp_bind_of_keeps (keeps_persist.whenFails ?_) hs fun _ h' hs =>
    ⟨hs, isLegacyIdentity_fromRequest _ _ _ _ _ _, rfl, Bool.eq_false_iff.mpr hfree⟩
  refine (keeps_rollback _ _ _).bind fun _ => ?_
  exact Keeps.bind (keeps_withVerifier _ _) fun _ => keeps_throw fun _ hs => hs.all

end Holds

def FrameContent.Spares (pk : Packages) (o : Ownership) : FrameContent → Prop
  | .desired envelope => envelope.Spares pk o.endpoints
  | .granted envelope => o.requestIsQuarantined envelope.envelope.request = true ∨
    envelope.envelope.request.Spares o.overlays o.endpoints
  | .bulk | .ungranted _ | .unreadable => True

namespace Holds

theorem wp_prepareDispatch (uid : UInt32) (frame : Bytes) (now : UInt64) {h : Host sv}
    (hs : AllRooted h) (hspares : ReachesPolicy h (sv.pk.frameContent (frame.drop 4)) →
      PolicyTakes h now (sv.pk.frameContent (frame.drop 4)) →
        (sv.pk.frameContent (frame.drop 4)).Spares sv.pk h.owned) :
    wp (prepareDispatch sv uid frame now)
      (fun d h' => d.receipt.isLegacyIdentity = false ∧
        Holds (fun overlays endpoints => d.envelope.request.Spares overlays endpoints) h')
      (fun _ => AllRooted) h := by
  unfold prepareDispatch
  rw [wp_bind]
  refine ((readOnly_validateFrame uid frame).wp _ _ _).mpr ⟨fun _ _ => ?_, fun _ _ => hs⟩
  rw [wp_bind]
  refine wp_mono (wp_tryLegacyFrame _ now hs fun envelope hcontent hreaches htakes => ?_)
    (fun _ h' hread => ?_) fun _ _ hs => hs
  · rw [hcontent] at hspares
    exact hspares hreaches htakes
  obtain ⟨rfl, hbulk, hdesired⟩ := hread
  rw [wp_bind, readGranted]
  cases hread : sv.pk.readGranted (frame.drop 4) with
  | none =>
    exact wp_mono (refuses_refuseUngranted _ now h' hs) (fun _ _ hfalse => hfalse.elim)
      fun _ _ hs => hs
  | some granted =>
    have hcontent : sv.pk.frameContent (frame.drop 4) = .granted granted := by
      rw [Packages.frameContent, if_neg hbulk, hdesired, hread]
    rw [hcontent] at hspares
    rw [wp_pure, wp_bind, wp_get, wp_bind, wp_rejectIf]
    refine ⟨fun _ => hs, fun hreaches => ?_⟩
    rw [wp_bind, wp_ofExcept]
    refine ⟨fun policy hpolicy => ?_, fun _ _ => hs⟩
    rw [wp_bind, wp_modify]
    have htakes : PolicyTakes h' now (.granted granted) := by
      rw [PolicyTakes, hpolicy]
      rfl
    have hrequest : Holds (fun overlays endpoints =>
        h'.owned.requestIsQuarantined granted.envelope.request = true ∨
          granted.envelope.request.Spares overlays endpoints) h' :=
      hs.mono (hspares (Bool.eq_true_of_not_eq_false hreaches) htakes)
    refine wp_mono (wp_spendGrant granted now (hrequest.withPolicy policy)) (fun d h hs => ?_)
      fun _ _ hs => hs
    obtain ⟨hs, hreceipt, henvelope, hfree⟩ := hs
    rw [henvelope]
    exact ⟨hreceipt, hs.mono (hs.names.resolve_left (Bool.eq_false_iff.mp hfree))⟩

theorem wp_handlePeer (uid : UInt32) (frame : Bytes) (now : UInt64) {h : Host sv}
    (hs : AllRooted h) (hspares : ReachesPolicy h (sv.pk.frameContent (frame.drop 4)) →
      PolicyTakes h now (sv.pk.frameContent (frame.drop 4)) →
        (sv.pk.frameContent (frame.drop 4)).Spares sv.pk h.owned) :
    wp (handlePeer sv uid frame now) (fun _ => AllRooted) (fun _ => AllRooted) h := by
  unfold handlePeer
  rw [wp_bind]
  exact wp_mono (wp_prepareDispatch uid frame now hs hspares)
    (fun d h hs => wp_execute d hs.1 hs.2) fun _ _ hs => hs

end Holds
end Ferrocrate.Netd
