import Ferrocrate.Netd.Recovery

/-! What the executors can do to a host: own, call the kernel, use the verifier, store. A property
that survives each of these survives every executor; only a rollback needs a word of its own. -/
namespace Ferrocrate.Netd
open Lib
open Lib.Program
variable {κ γ ε : Type} {sv : Services κ γ}

structure Stable (I : Host sv → Prop) : Prop where
  owned : ∀ {h} o, I h → I (h.withOwned o)
  grants : ∀ {h} g, I h → I (h.withGrants g)
  performed : ∀ {h} call kernel, I h → I (h.performed call kernel)
  began : ∀ {h} identity, I h → I (h.noting (.beginOverlayIntent identity))
  applying : ∀ {h}, I h → I (h.noting .applyLegacyDesired)
  stored : ∀ {h} generation stores, I h → I (h.stored generation stores)
  counting : ∀ {h} generation, I h → I (h.counting generation)
  stores : ∀ {h : Host sv} stores, I h → I { h with stores := stores }

section Primitives
variable {I : Host sv → Prop} {E : ε → Host sv → Prop}

theorem keeps_persist (hstored : ∀ {h} generation stores, I h → I (h.stored generation stores))
    (hcounting : ∀ {h} generation, I h → I (h.counting generation))
    (hstores : ∀ {h : Host sv} stores, I h → I { h with stores := stores }) :
    Keeps I E (persist : Program ε (Host sv) Bool) := by
  intro h hs
  unfold wp persist
  split_ifs with hjournal
  · cases checkedAdd h.server.journalGeneration 1 with
    | none => exact hs
    | some generation =>
      match h.stores with
      | [] => exact hcounting _ (hstored _ _ hs)
      | .stored :: rest => exact hcounting _ (hstored _ _ hs)
      | .failed :: rest => exact hstores _ hs
      | .replaced :: rest => exact hstored _ _ hs
  · exact hs

theorem keeps_withVerifier (hgrants : ∀ {h} g, I h → I (h.withGrants g)) (missing : Bool)
    (f : γ → Bool × γ) : Keeps I E (withVerifier missing f : Program ε (Host sv) Bool) := by
  intro h hs
  unfold wp withVerifier
  cases h.server.grants with
  | none => exact hs
  | some verifier => exact hgrants _ hs

theorem keeps_consumeGrant (hgrants : ∀ {h} g, I h → I (h.withGrants g))
    (grant : Authorization.HelperGrant) (action : Authorization.GrantAction) (uuid : String)
    (generation : UInt64) (params : Authorization.GrantParameters) (receipt : EffectReceipt)
    (now : UInt64) :
    Keeps I E (consumeGrant grant action uuid generation params receipt now :
      Program ε (Host sv) (Except RejectionCode Unit)) := by
  intro h hs
  unfold wp consumeGrant
  cases h.server.grants with
  | none => exact hs
  | some verifier =>
    dsimp only
    cases sv.verifier.verifyAndConsume grant action uuid generation params now verifier with
    | mk result verifier =>
      cases result with
      | error e => exact hgrants _ hs
      | ok consumed =>
        dsimp only
        cases sv.verifier.armEffectTarget consumed receipt verifier with
        | mk result verifier => cases result <;> exact hgrants _ hs

end Primitives

namespace Stable
variable {I : Host sv → Prop} {E : ε → Host sv → Prop}

theorem perform (hI : Stable I) (call : KernelCall) : Keeps I E (perform sv call) :=
  fun _ hs => hI.performed call _ hs

theorem modifyOwned (hI : Stable I) (f : Ownership → Ownership) :
    Keeps I E (modifyOwned f : Program ε (Host sv) Unit) :=
  keeps_modify fun _ hs => hI.owned _ hs

theorem persist (hI : Stable I) : Keeps I E (persist : Program ε (Host sv) Bool) :=
  keeps_persist hI.stored hI.counting hI.stores

theorem withVerifier (hI : Stable I) (missing : Bool) (f : γ → Bool × γ) :
    Keeps I E (withVerifier missing f : Program ε (Host sv) Bool) :=
  keeps_withVerifier hI.grants missing f

theorem beginOverlayIntent (hI : Stable I) (operationId : Witness.Id) (action : String)
    (desired : EffectReceipt) (routes addresses : List String) :
    Keeps I E (beginOverlayIntent operationId action desired routes addresses :
      Program ε (Host sv) Bool) := by
  refine (keeps_modify fun _ hs => hI.began _ hs).bind fun _ => keeps_get.bind fun h => ?_
  refine (hI.modifyOwned _).bind fun _ => hI.persist.bind fun ok => ?_
  cases ok with
  | true => exact keeps_pure true
  | false => exact (hI.modifyOwned _).bind fun _ => keeps_pure false

theorem markOverlayIntent (hI : Stable I) (identity : String) (phase : IntentPhase) :
    Keeps I E (markOverlayIntent identity phase : Program ε (Host sv) Bool) :=
  (hI.modifyOwned _).bind fun _ => hI.persist

/-! Desired states. -/

theorem legacyStep (hI : Stable I) (identity : String) (call : KernelCall) (phase : IntentPhase) :
    Keeps I (fun _ => I) (legacyStep sv identity call phase) :=
  ((hI.perform call).ensure fun _ h => h).bind fun _ =>
    (hI.markOverlayIntent identity phase).ensure fun _ h => h

theorem legacyRemove (hI : Stable I) (envelope : DesiredStateEnvelope) (overlay : String) :
    Keeps I (fun _ => I) (legacyRemove sv envelope overlay) := by
  refine ((hI.beginOverlayIntent _ _ _ _ _).ensure fun _ h => h).bind fun _ => ?_
  refine keeps_get.bind fun h => (keeps_forSome fun _ => hI.legacyStep _ _ _).bind fun _ => ?_
  refine (keeps_forSome fun _ => hI.legacyStep _ _ _).bind fun _ => keeps_get.bind fun h => ?_
  refine (Keeps.runIf _ (hI.legacyStep _ _ _)).bind fun _ => ?_
  exact (hI.legacyStep _ _ _).bind fun _ => hI.modifyOwned _

theorem legacyApply (hI : Stable I) (envelope : DesiredStateEnvelope) (overlay : OverlayState) :
    Keeps I (fun _ => I) (legacyApply sv envelope overlay) := by
  refine keeps_get.bind fun h => ?_
  refine ((hI.beginOverlayIntent _ _ _ _ _).ensure fun _ h => h).bind fun _ => ?_
  refine keeps_get.bind fun h => (Keeps.runIf _ (hI.legacyStep _ _ _)).bind fun _ => ?_
  refine (Keeps.runIf _ ((hI.legacyStep _ _ _).bind fun _ => hI.legacyStep _ _ _)).bind fun _ => ?_
  refine (hI.legacyStep _ _ _).bind fun _ => (hI.legacyStep _ _ _).bind fun _ => ?_
  refine (Keeps.runIf _ (hI.legacyStep _ _ _)).bind fun _ => ?_
  exact (hI.legacyStep _ _ _).bind fun _ => hI.modifyOwned _

theorem applyDesired (hI : Stable I) (envelope : DesiredStateEnvelope) :
    Keeps I (fun _ => I) (applyDesired sv envelope) := by
  refine Keeps.bind (keeps_okOr fun _ h => h) fun desired => ?_
  refine Keeps.bind (keeps_rejectIf fun _ h => h) fun _ => ?_
  refine Keeps.bind (keeps_rejectIf fun _ h => h) fun _ => keeps_get.bind fun h => ?_
  refine Keeps.bind (keeps_rejectIf fun _ h => h) fun _ => ?_
  refine (keeps_forM fun overlay => hI.legacyRemove envelope overlay).bind fun _ => ?_
  refine (keeps_forM fun overlay => hI.legacyApply envelope overlay).bind fun _ => ?_
  exact (hI.persist.ensure fun _ h => h).bind fun _ => keeps_pure _

theorem applyLegacyDesired (hI : Stable I) (envelope : DesiredStateEnvelope) :
    Keeps I (fun _ => I) (applyLegacyDesired sv envelope) :=
  (keeps_modify fun _ hs => hI.applying hs).bind fun _ => hI.applyDesired envelope

end Stable

theorem stable_mem_calls (call : Call) : Stable fun h : Host sv => call ∈ h.calls where
  owned _ h := h
  grants _ h := h
  performed _ _ h := List.mem_cons_of_mem _ h
  began _ h := List.mem_cons_of_mem _ h
  applying h := List.mem_cons_of_mem _ h
  stored _ _ h := List.mem_cons_of_mem _ h
  counting _ h := h
  stores _ h := h

structure Guarded (I W : Host sv → Prop) : Prop where
  strong : Stable I
  weak : Stable W
  weaken : ∀ {h}, I h → W h
  raised : ∀ {h} scope floor, h.server.policy.Passes scope floor → I h →
    I (h.withPolicy (h.server.policy.raised scope floor))
  rolledBack : ∀ {h} scope epoch revision, W h → W ((h.noting (.rollback scope)).withPolicy
    (h.server.policy.rollback scope epoch revision))

def Ended (I W : Host sv → Prop) : NetdResponse → Host sv → Prop
  | .rejected _ _ => W
  | .applied | .removed | .attached | .detached | .snapshot _ _ => I

namespace Guarded
variable {I W : Host sv → Prop} (g : Guarded I W)
include g

theorem rollback {E : ε → Host sv → Prop} (scope : String) (epoch revision : UInt64) :
    Keeps W E (rollback scope epoch revision : Program ε (Host sv) Unit) :=
  fun _ hs => g.rolledBack scope epoch revision hs

theorem rejectEffect (d : Dispatch) (started : Bool) (code : RejectionCode)
    (reason identity : String) :
    Refuses W (Ended I W) (rejectEffect sv d started code reason identity) := by
  have hrecord : Keeps W (Ended I W) (recordRefusal sv d started reason identity) := by
    cases started with
    | true => exact (g.weak.markOverlayIntent _ _).bind fun _ => g.weak.withVerifier _ _
    | false => exact g.weak.withVerifier _ _
  exact Keeps.refuses (hrecord.ensure fun _ h => h) fun _ => refuses_throw fun _ h => h

theorem rejectsEffect (d : Dispatch) (started : Bool) (code : RejectionCode)
    (reason identity : String) :
    Keeps I (Ended I W) (Netd.rejectEffect sv d started code reason identity) :=
  ((g.rejectEffect d started code reason identity).mono fun _ h => g.weaken h).keeps

theorem checkpoint (d : Dispatch) (identity : String) (phase : IntentPhase) :
    Keeps I (Ended I W) (checkpoint sv d identity phase) :=
  (g.strong.markOverlayIntent identity phase).whenFails (g.rejectsEffect _ _ _ _ _)

theorem effectStep (d : Dispatch) (identity : String) (call : KernelCall) (phase : IntentPhase)
    (reason : String) : Keeps I (Ended I W) (effectStep sv d identity call phase reason) :=
  ((g.strong.perform call).whenFails (g.rejectsEffect _ _ _ _ _)).bind fun _ =>
    g.checkpoint d identity phase

theorem finish (d : Dispatch) (identity outcome : String) (response : NetdResponse) :
    Keeps I (Ended I W) (finish sv d identity outcome response) :=
  ((g.strong.withVerifier _ _).ensure fun _ h => g.weaken h).bind fun _ => keeps_pure response

theorem storeOwnership (d : Dispatch) (identity reason : String) {beforehand : Handler sv Unit}
    (hb : Keeps W (Ended I W) beforehand) :
    Keeps I (Ended I W) (storeOwnership sv d identity reason beforehand) := by
  refine g.strong.persist.whenFails (Refuses.mono (Keeps.refuses hb fun _ => ?_)
    fun _ h => g.weaken h).keeps
  exact (g.weak.modifyOwned _).refuses fun _ => g.rejectEffect _ _ _ _ _

theorem applyWireguard (d : Dispatch) (identity : String) (interfaces : OverlayInterfaces)
    (createdBridge : Bool) (addresses : List String) (peers : List PeerSpec) :
    Keeps I (Ended I W) (applyWireguard sv d identity interfaces createdBridge addresses peers) := by
  refine Keeps.bind ((g.strong.perform _).whenFails ?_) fun _ =>
    (g.checkpoint _ _ _).bind fun _ => g.effectStep _ _ _ _ _
  refine Keeps.bind (Keeps.runIf _ ?_) fun _ => g.rejectsEffect _ _ _ _ _
  exact (g.strong.perform _).bind fun _ => keeps_pure _

theorem applyRoute (d : Dispatch) (identity routeInterface : String) (route : String × Nat) :
    Keeps I (Ended I W) (applyRoute sv d identity routeInterface route) := by
  refine Keeps.bind ((g.strong.perform _).whenFails ?_) fun _ => g.checkpoint _ _ _
  exact ((g.rollback _ _ _).refuses fun _ => g.rejectEffect _ _ _ _ _).mono
    (fun _ h => g.weaken h) |>.keeps

theorem executeApply (d : Dispatch) (overlayId : String) (mode : OverlayMode)
    (peers : List PeerSpec) (routes addresses : List String) :
    Keeps I (Ended I W) (executeApply sv d overlayId mode peers routes addresses) := by
  refine keeps_get.bind fun h => ?_
  refine ((g.strong.beginOverlayIntent _ _ _ _ _).whenFails (g.rejectsEffect _ _ _ _ _)).bind
    fun _ => ?_
  refine (Keeps.runIf _ (g.effectStep _ _ _ _ _)).bind fun _ => ?_
  refine (Keeps.runIf _ (g.applyWireguard _ _ _ _ _ _)).bind fun _ => ?_
  refine (keeps_forM fun _ => g.effectStep _ _ _ _ _).bind fun _ => ?_
  refine (keeps_forM fun _ => g.applyRoute _ _ _ _).bind fun _ => ?_
  refine (keeps_forSome fun _ => keeps_forM fun _ => g.effectStep _ _ _ _ _).bind fun _ => ?_
  refine (keeps_forM fun _ => g.effectStep _ _ _ _ _).bind fun _ => ?_
  refine Keeps.bind (Keeps.runIf _ (g.effectStep _ _ _ _ _)) fun _ => ?_
  refine (g.strong.modifyOwned _).bind fun _ => ?_
  exact (g.storeOwnership _ _ _ (g.rollback _ _ _)).bind fun _ => g.finish _ _ _ _

theorem removeOwned (d : Dispatch) (overlayId : String) :
    Keeps I (Ended I W) (removeOwned sv d overlayId) := by
  refine keeps_get.bind fun h => (keeps_forM fun _ => g.effectStep _ _ _ _ _).bind fun _ => ?_
  refine (keeps_forM fun _ => g.effectStep _ _ _ _ _).bind fun _ => keeps_get.bind fun h => ?_
  refine (Keeps.runIf _ ((g.strong.perform _).whenFails (g.rejectsEffect _ _ _ _ _))).bind
    fun _ => keeps_get.bind fun h => ?_
  refine (Keeps.runIf _ (g.checkpoint _ _ _)).bind fun _ => ?_
  exact (g.effectStep _ _ _ _ _).bind fun _ => g.strong.modifyOwned _

theorem executeRemove (d : Dispatch) (overlayId : String) :
    Keeps I (Ended I W) (executeRemove sv d overlayId) := by
  refine keeps_get.bind fun h => ?_
  refine ((g.strong.beginOverlayIntent _ _ _ _ _).whenFails (g.rejectsEffect _ _ _ _ _)).bind
    fun _ => ?_
  refine (Keeps.runIf _ (g.removeOwned _ _)).bind fun _ => (g.strong.modifyOwned _).bind fun _ => ?_
  refine (g.strong.persist.whenFails ?_).bind fun _ => g.finish _ _ _ _
  exact (g.strong.modifyOwned _).bind fun _ => g.rejectsEffect _ _ _ _ _

theorem abandonEndpoint (d : Dispatch) (endpointId : String) (code : RejectionCode)
    (reason : String) : Keeps I (Ended I W) (abandonEndpoint sv d endpointId code reason) :=
  (g.strong.perform _).bind fun _ => g.rejectsEffect _ _ _ _ _

theorem executeAttach (d : Dispatch) (overlayId endpointId : String) (netns : Option String) :
    Keeps I (Ended I W) (executeAttach sv d overlayId endpointId netns) := by
  refine keeps_get.bind fun h => ?_
  cases h.owned.endpoints.get endpointId with
  | some existing =>
    refine keeps_get.bind fun h => Keeps.bind (Keeps.runIf _ ?_) fun _ => g.finish _ _ _ _
    exact g.rejectsEffect _ _ _ _ _
  | none =>
    refine Keeps.bind ((g.strong.beginOverlayIntent _ _ _ _ _).whenFails
      (g.rejectsEffect _ _ _ _ _)) fun _ => ?_
    refine (g.effectStep _ _ _ _ _).bind fun _ => ?_
    refine Keeps.bind (Keeps.runIf _ (g.abandonEndpoint _ _ _ _)) fun _ => ?_
    refine Keeps.bind ((g.strong.perform _).whenFails (g.abandonEndpoint _ _ _ _)) fun _ => ?_
    refine (g.checkpoint _ _ _).bind fun _ => Keeps.bind (keeps_forSome fun _ => ?_) fun _ => ?_
    · exact ((g.strong.perform _).whenFails (g.abandonEndpoint _ _ _ _)).bind fun _ =>
        g.checkpoint _ _ _
    · refine (g.strong.modifyOwned _).bind fun _ => ?_
      exact (g.storeOwnership _ _ _ (keeps_pure _)).bind fun _ => g.finish _ _ _ _

theorem detachUnknown (d : Dispatch) (identity reason : String) :
    Keeps I (Ended I W) (detachUnknown sv d identity reason) := by
  refine (g.strong.markOverlayIntent _ _).bind fun _ => ?_
  exact ((g.strong.withVerifier _ _).ensure fun _ h => g.weaken h).bind fun _ =>
    keeps_throw fun _ h => g.weaken h

theorem refuseDetach (d : Dispatch) (identity : String) (code : RejectionCode)
    (recorded reason : String) :
    Keeps I (Ended I W) (refuseDetach sv d identity code recorded reason) :=
  (g.strong.withVerifier _ _).bind fun _ => keeps_throw fun _ h => g.weaken h

theorem executeDetach (d : Dispatch) (overlayId endpointId : String) :
    Keeps I (Ended I W) (executeDetach sv d overlayId endpointId) := by
  refine keeps_get.bind fun h => Keeps.bind (Keeps.runIf _ (g.refuseDetach _ _ _ _ _)) fun _ => ?_
  refine ((g.strong.beginOverlayIntent _ _ _ _ _).whenFails (g.refuseDetach _ _ _ _ _)).bind
    fun _ => Keeps.bind (Keeps.runIf _ ?_) fun _ => ?_
  · refine ((g.strong.perform _).whenFails (g.detachUnknown _ _ _)).bind fun _ => ?_
    exact ((g.strong.markOverlayIntent _ _).whenFails (g.detachUnknown _ _ _)).bind fun _ =>
      g.strong.modifyOwned _
  · refine (g.strong.modifyOwned _).bind fun _ => (g.strong.persist.whenFails ?_).bind fun _ =>
      g.finish _ _ _ _
    exact (g.strong.modifyOwned _).bind fun _ => g.detachUnknown _ _ _

theorem execute (d : Dispatch) : Keeps I (Ended I W) (execute sv d) := by
  unfold Netd.execute
  cases d.envelope.request with
  | applyOverlay overlayId mode peers routes addresses => exact g.executeApply _ _ _ _ _ _
  | removeOverlay overlayId => exact g.executeRemove _ _
  | attachEndpoint overlayId endpointId netns => exact g.executeAttach _ _ _ _
  | detachEndpoint overlayId endpointId => exact g.executeDetach _ _ _
  | inspect overlayId => exact g.finish _ _ _ _

theorem takes {α : Type} {result : Except RejectionCode (Policy sv.pk)} {reason : String}
    {rest : Handler sv α} {h : Host sv} (hs : I h)
    (hpolicy : ∀ policy, result = .ok policy → ∃ scope floor,
      policy = h.server.policy.raised scope floor ∧ h.server.policy.Passes scope floor)
    (hrest : Keeps I (Ended I W) rest) :
    wp (do
      let policy ← ofExcept (reject · reason) result
      modify fun h => h.withPolicy policy
      rest) (fun _ => I) (Ended I W) h := by
  rw [wp_bind, wp_ofExcept]
  refine ⟨fun policy hok => ?_, fun _ _ => g.weaken hs⟩
  obtain ⟨scope, floor, rfl, hpasses⟩ := hpolicy policy hok
  exact hrest _ (g.raised scope floor hpasses hs)

theorem validateFrame (uid : UInt32) (frame : Bytes) :
    Keeps I (Ended I W) (validateFrame sv uid frame) := by
  refine keeps_get.bind fun h => Keeps.bind (keeps_rejectIf fun _ h => g.weaken h) fun _ => ?_
  refine Keeps.bind (keeps_rejectIf fun _ h => g.weaken h) fun _ => ?_
  exact keeps_rejectIf fun _ h => g.weaken h

theorem admitDesired (desired : DesiredStateEnvelope) (now : UInt64) :
    Keeps I (Ended I W) (admitDesired sv desired now) := by
  refine Keeps.bind ?_ fun _ h hs => ?_
  · refine keeps_get.bind fun h => Keeps.bind (keeps_okOr fun _ h => g.weaken h) fun pinned => ?_
    exact keeps_rejectIf fun _ h => g.weaken h
  · refine (wp_bind _ _ _ _ _).mpr (g.takes hs (fun policy hok => ?_) ?_)
    · exact ⟨_, _, Policy.validateDesired_eq_ok hok⟩
    · refine g.strong.persist.whenFails (Refuses.mono ?_ fun _ h => g.weaken h).keeps
      exact (g.rollback _ _ _).refuses fun _ => refuses_throw fun _ h => h

theorem answerDesired (desired : DesiredStateEnvelope) (hI : ∀ {h : Host sv}, I h → W h) :
    Refuses I (Ended I W) (caught (Netd.applyLegacyDesired sv desired) >>=
      answerDesired sv desired) := by
  intro h hs
  rw [wp_bind, wp_caught]
  refine wp_mono (g.strong.applyLegacyDesired desired h hs) (fun response h hs => ?_)
    fun code h hs => ?_
  · show Ended I W response h
    cases response with
    | rejected code reason => exact g.weaken hs
    | applied => exact hs
    | removed => exact hs
    | attached => exact hs
    | detached => exact hs
    | snapshot overlayId revision => exact hs
  · exact Keeps.refuses (g.rollback _ _ _) (fun _ => refuses_throw fun _ h => h) h (hI hs)

theorem tryLegacyFrame (bytes : Bytes) (now : UInt64) :
    Keeps I (Ended I W) (tryLegacyFrame sv bytes now) := by
  refine Keeps.bind (keeps_rejectIf fun _ h => g.weaken h) fun _ => keeps_forSome fun desired => ?_
  exact (g.admitDesired desired now).bind fun _ => (g.answerDesired desired g.weaken).keeps

theorem rollbackAndRefuse (envelope : SignedEnvelope) (code : RejectionCode) (reason : String) :
    Keeps I (Ended I W) (rollbackAndRefuse sv envelope code reason) := by
  refine (Refuses.mono ?_ fun _ h => g.weaken h).keeps
  exact (g.rollback _ _ _).refuses fun _ => refuses_throw fun _ h => h

theorem spendGrant (granted : GrantedEnvelope) (now : UInt64) :
    Keeps I (Ended I W) (spendGrant sv granted now) := by
  refine Keeps.bind ?_ fun bound => keeps_get.bind fun h => ?_
  · intro h hs
    exact (wp_ofExcept _ _ _ _ _).mpr ⟨fun _ _ => hs, fun _ _ => g.weaken hs⟩
  refine (Keeps.runIf _ (g.rollbackAndRefuse _ _ _)).bind fun _ => ?_
  refine (keeps_consumeGrant g.strong.grants _ _ _ _ _ _ _).bind fun consumed => ?_
  refine Keeps.bind ?_ fun _ => Keeps.bind (g.strong.persist.whenFails ?_) fun _ => keeps_pure _
  · cases consumed with
    | ok _ => exact keeps_pure _
    | error code => exact g.rollbackAndRefuse _ _ _
  · refine (Refuses.mono ?_ fun _ h => g.weaken h).keeps
    refine (g.rollback _ _ _).refuses fun _ => (g.weak.withVerifier _ _).refuses fun _ => ?_
    exact refuses_throw fun _ h => h

theorem readGranted (bytes : Bytes) (now : UInt64) :
    Keeps I (Ended I W) (readGranted sv bytes now) := by
  unfold Netd.readGranted
  cases sv.pk.readGranted bytes with
  | some granted => exact keeps_pure granted
  | none =>
    refine Keeps.bind (keeps_okOr fun _ h => g.weaken h) fun legacy => ?_
    intro h hs
    refine (wp_bind _ _ _ _ _).mpr (g.takes hs (fun policy hok => ?_) ?_)
    · exact ⟨_, _, Policy.validate_eq_ok hok⟩
    · exact keeps_throw fun _ h => g.weaken h

theorem prepareDispatch (uid : UInt32) (frame : Bytes) (now : UInt64) :
    Keeps I (Ended I W) (prepareDispatch sv uid frame now) := by
  refine (g.validateFrame uid frame).bind fun _ => (g.tryLegacyFrame _ now).bind fun _ => ?_
  refine (g.readGranted _ now).bind fun granted h hs => ?_
  rw [wp_bind, wp_get, wp_bind, wp_rejectIf]
  refine ⟨fun _ => g.weaken hs, fun _ => g.takes hs (fun policy hok => ?_) (g.spendGrant _ now)⟩
  exact ⟨_, _, Policy.validate_eq_ok hok⟩

theorem handlePeer (uid : UInt32) (frame : Bytes) (now : UInt64) :
    Keeps I (Ended I W) (handlePeer sv uid frame now) :=
  (g.prepareDispatch uid frame now).bind fun d => g.execute d

end Guarded
end Ferrocrate.Netd
