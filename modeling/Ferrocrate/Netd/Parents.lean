import Ferrocrate.Netd.Run

/-! Endpoints and the overlays they are attached to: what the executors keep of them, in memory and
in every journal file they store. -/
namespace Ferrocrate.Netd
open Lib
open Lib.Program
variable {κ γ ε : Type} {sv : Services κ γ}

structure OverlayMutationIntent.Sound (intent : OverlayMutationIntent) (identity : String) :
    Prop where
  identity_eq : identity = intent.desired.identity
  desired : intent.desired.isLegacyIdentity = false
  prior : ∀ prior, intent.prior = some prior → prior.isLegacyIdentity = false

theorem overlay_ne_endpoint (overlay endpoint : String) :
    "overlay:" ++ overlay ≠ "endpoint:" ++ endpoint := by
  intro h
  simpa using congrArg String.toList h

theorem overlay_inj {overlay overlay' : String} :
    "overlay:" ++ overlay = "overlay:" ++ overlay' ↔ overlay = overlay' := by
  simp [String.ext_iff]

namespace Ownership
variable {o : Ownership} {overlay endpoint : String}

def ParentsOwned (o : Ownership) : Prop :=
  ∀ endpoint overlay, o.endpoints.get endpoint = some overlay →
    o.overlayIsQuarantined overlay = false → o.overlays.contains overlay = true

structure Vouched (o : Ownership) : Prop where
  owned : ∀ overlay, o.overlays.contains overlay = true →
    o.effectReceipts.contains ("overlay:" ++ overlay) = true
  receipts : ∀ identity receipt, o.effectReceipts.get identity = some receipt →
    receipt.isLegacyIdentity = false
  intents : ∀ identity intent, o.overlayIntents.get identity = some intent → intent.Sound identity

namespace Vouched

theorem empty : Ownership.empty.Vouched :=
  ⟨fun _ h => (nomatch h), fun _ _ h => (nomatch h), fun _ _ h => (nomatch h)⟩

theorem intend (h : o.Vouched) {identity : String} {intent : OverlayMutationIntent}
    (hintent : intent.Sound identity) :
    Vouched { o with overlayIntents := o.overlayIntents.insert identity intent } := by
  refine ⟨h.owned, h.receipts, fun identity' intent' hget => ?_⟩
  rw [OrdMap.get_insert] at hget
  split at hget
  · next heq =>
    cases hget
    rwa [heq]
  · exact h.intents identity' intent' hget

theorem forget (h : o.Vouched) (identity : String) :
    Vouched { o with overlayIntents := o.overlayIntents.erase identity } := by
  refine ⟨h.owned, h.receipts, fun identity' intent' hget => ?_⟩
  rw [OrdMap.get_erase] at hget
  split at hget
  · cases hget
  · exact h.intents identity' intent' hget

theorem advance (h : o.Vouched) (identity : String)
    {f : OverlayMutationIntent → OverlayMutationIntent}
    (hdesired : ∀ intent, (f intent).desired = intent.desired)
    (hprior : ∀ intent, (f intent).prior = intent.prior) :
    Vouched { o with overlayIntents := o.overlayIntents.modify identity f } := by
  refine ⟨h.owned, h.receipts, fun identity' intent' hget => ?_⟩
  rw [OrdMap.get_modify] at hget
  split at hget
  · obtain ⟨intent, hintent, rfl⟩ := Option.map_eq_some_iff.mp hget
    obtain ⟨heq, hnew, hold⟩ := h.intents identity' intent hintent
    exact ⟨by rw [hdesired, heq], by rw [hdesired, hnew], by rwa [hprior]⟩
  · exact h.intents identity' intent' hget

variable {receipt : EffectReceipt}

theorem insert_receipt (h : o.Vouched)
    (hreceipt : receipt.isLegacyIdentity = false) (identity identity' : String)
    (receipt' : EffectReceipt)
    (hget : (o.effectReceipts.insert identity receipt).get identity' = some receipt') :
    receipt'.isLegacyIdentity = false := by
  rw [OrdMap.get_insert] at hget
  split at hget
  · cases hget
    exact hreceipt
  · exact h.receipts identity' receipt' hget

theorem own (h : o.Vouched) (hreceipt : receipt.isLegacyIdentity = false)
    (overlay : String) (routes addresses : OrdMap String (List String)) :
    Vouched { o with
      overlays := o.overlays.insert overlay ()
      routes := routes
      addresses := addresses
      effectReceipts := o.effectReceipts.insert ("overlay:" ++ overlay) receipt } := by
  refine ⟨fun owned howned => ?_, h.insert_receipt hreceipt _, h.intents⟩
  simp only [OrdMap.contains, OrdMap.get_insert, overlay_inj] at howned ⊢
  split
  · rfl
  · next hne =>
    rw [if_neg hne] at howned
    exact h.owned owned howned

theorem disown (h : o.Vouched) (overlay : String) (routes addresses : OrdMap String (List String)) :
    Vouched { o with
      overlays := o.overlays.erase overlay
      routes := routes
      addresses := addresses } := by
  refine ⟨fun owned howned => ?_, h.receipts, h.intents⟩
  rw [OrdMap.contains, OrdMap.get_erase] at howned
  split at howned
  · cases howned
  · exact h.owned owned howned

theorem dropReceipt (h : o.Vouched) {identity : String}
    (hfree : ∀ overlay, o.overlays.contains overlay = true → "overlay:" ++ overlay ≠ identity) :
    Vouched { o with effectReceipts := o.effectReceipts.erase identity } := by
  refine ⟨fun owned howned => ?_, fun identity' receipt hget => ?_, h.intents⟩
  · have := h.owned owned howned
    rw [OrdMap.contains] at this ⊢
    rw [OrdMap.get_erase, if_neg (hfree owned howned)]
    exact this
  · rw [OrdMap.get_erase] at hget
    split at hget
    · cases hget
    · exact h.receipts identity' receipt hget

theorem attach (h : o.Vouched)
    (hreceipt : receipt.isLegacyIdentity = false) (endpoint : String)
    (endpoints : OrdMap String String) :
    Vouched { o with
      endpoints := endpoints
      effectReceipts := o.effectReceipts.insert ("endpoint:" ++ endpoint) receipt } := by
  refine ⟨fun owned howned => ?_, h.insert_receipt hreceipt _, h.intents⟩
  have := h.owned owned howned
  rw [OrdMap.contains] at this ⊢
  rw [OrdMap.get_insert, if_neg (overlay_ne_endpoint owned endpoint)]
  exact this

end Vouched

theorem contains_insert_of (hcontains : o.overlays.contains overlay = true) (other : String) :
    (o.overlays.insert other ()).contains overlay = true := by
  rw [OrdMap.contains] at hcontains ⊢
  rw [OrdMap.get_insert]
  split
  · rfl
  · exact hcontains

theorem contains_erase_of (hcontains : o.overlays.contains overlay = true) {other : String}
    (hne : overlay ≠ other) : (o.overlays.erase other).contains overlay = true := by
  rw [OrdMap.contains] at hcontains ⊢
  rwa [OrdMap.get_erase, if_neg hne]

structure Rooted (o : Ownership) : Prop where
  vouched : o.Vouched
  parents : ∀ endpoint overlay, o.endpoints.get endpoint = some overlay →
    o.overlays.contains overlay = true

namespace Rooted

theorem parentsOwned (h : o.Rooted) : o.ParentsOwned :=
  fun endpoint overlay hparent _ => h.parents endpoint overlay hparent

theorem empty : Ownership.empty.Rooted := ⟨.empty, fun _ _ h => (nomatch h)⟩

theorem quarantine (h : o.Rooted) (entry : String) : (o.quarantine entry).Rooted :=
  ⟨⟨h.vouched.owned, h.vouched.receipts, h.vouched.intents⟩, h.parents⟩

theorem succeeded (h : o.Rooted) (identity : String) : (o.succeeded identity).Rooted :=
  ⟨h.vouched.advance identity (fun _ => rfl) fun _ => rfl, h.parents⟩

variable {receipt : EffectReceipt}

theorem own (h : o.Rooted) (hreceipt : receipt.isLegacyIdentity = false)
    (overlay : String) (routes addresses : OrdMap String (List String)) :
    Rooted { o with
      overlays := o.overlays.insert overlay ()
      routes := routes
      addresses := addresses
      effectReceipts := o.effectReceipts.insert ("overlay:" ++ overlay) receipt } :=
  ⟨h.vouched.own hreceipt overlay routes addresses, fun endpoint parent hparent =>
    contains_insert_of (h.parents endpoint parent hparent) overlay⟩

theorem disown (h : o.Rooted) (hfree : ∀ endpoint, o.endpoints.get endpoint ≠ some overlay)
    (routes addresses : OrdMap String (List String)) :
    Rooted { o with
      overlays := o.overlays.erase overlay
      routes := routes
      addresses := addresses } := by
  refine ⟨h.vouched.disown overlay routes addresses, fun endpoint parent hparent => ?_⟩
  refine contains_erase_of (h.parents endpoint parent hparent) ?_
  rintro rfl
  exact hfree endpoint hparent

theorem dropReceipt (h : o.Rooted) {identity : String}
    (hfree : ∀ overlay, o.overlays.contains overlay = true → "overlay:" ++ overlay ≠ identity) :
    Rooted { o with effectReceipts := o.effectReceipts.erase identity } :=
  ⟨h.vouched.dropReceipt hfree, h.parents⟩

theorem attach (h : o.Rooted) (howned : o.overlays.contains overlay = true) (hreceipt : receipt.isLegacyIdentity = false) (endpoint : String) :
    Rooted { o with
      endpoints := o.endpoints.insert endpoint overlay
      effectReceipts := o.effectReceipts.insert ("endpoint:" ++ endpoint) receipt } := by
  refine ⟨h.vouched.attach hreceipt endpoint _, fun endpoint' parent hparent => ?_⟩
  rw [OrdMap.get_insert] at hparent
  split at hparent
  · cases hparent
    exact howned
  · exact h.parents endpoint' parent hparent

theorem detach (h : o.Rooted) (endpoint : String) :
    Rooted { o with endpoints := o.endpoints.erase endpoint } := by
  refine ⟨⟨h.vouched.owned, h.vouched.receipts, h.vouched.intents⟩, ?_⟩
  intro endpoint' parent hparent
  rw [OrdMap.get_erase] at hparent
  split at hparent
  · cases hparent
  · exact h.parents endpoint' parent hparent

end Rooted
end Ownership

structure Holds (P : OrdSet String → OrdMap String String → Prop) (h : Host sv) : Prop where
  rooted : h.owned.Rooted
  names : P h.owned.overlays h.owned.endpoints
  file : ∀ frame, h.file = some frame → frame.state.owned.Rooted
  stored : ∀ frame, .stored frame ∈ h.calls → frame.state.owned.Rooted

abbrev AllRooted (h : Host sv) : Prop := Holds (fun _ _ => True) h

namespace Holds
variable {P Q : OrdSet String → OrdMap String String → Prop} {h : Host sv}
  {E : ε → Host sv → Prop}

theorem turn (hs : Holds P h) {o : Ownership} (hrooted : o.Rooted)
    (hnames : Q o.overlays o.endpoints) : Holds Q (h.withOwned o) :=
  ⟨hrooted, hnames, hs.file, hs.stored⟩

theorem mono (hs : Holds P h) (hnames : Q h.owned.overlays h.owned.endpoints) : Holds Q h :=
  ⟨hs.rooted, hnames, hs.file, hs.stored⟩

theorem all (hs : Holds P h) : AllRooted h := hs.mono trivial

theorem withPolicy (hs : Holds P h) (policy : Policy sv.pk) : Holds P (h.withPolicy policy) :=
  ⟨hs.rooted, hs.names, hs.file, hs.stored⟩

theorem noting (hs : Holds P h) {call : Call} (hcall : ∀ frame, call ≠ .stored frame) :
    Holds P (h.noting call) := by
  refine ⟨hs.rooted, hs.names, hs.file, fun frame hmem => ?_⟩
  cases List.mem_cons.mp hmem with
  | inl heq => exact absurd heq.symm (hcall frame)
  | inr hmem => exact hs.stored frame hmem

theorem writes (hs : Holds P h) (generation : UInt64) (stores : List StoreOutcome) :
    Holds P (h.stored generation stores) := by
  refine ⟨hs.rooted, hs.names, fun frame hfile => ?_, fun frame hmem => ?_⟩
  · cases hfile
    exact hs.rooted
  · cases List.mem_cons.mp hmem with
    | inl heq =>
      cases heq
      exact hs.rooted
    | inr hmem => exact hs.stored frame hmem

theorem keeps_perform (call : KernelCall) :
    Keeps (Holds P) E (perform sv call : Program ε (Host sv) Bool) := by
  intro h hs
  have hs' : Holds P { h with server := { h.server with
      kernel := (sv.net.perform call h.server.kernel).2 } } :=
    ⟨hs.rooted, hs.names, hs.file, hs.stored⟩
  exact hs'.noting fun frame heq => by cases heq

theorem keeps_persist : Keeps (Holds P) E (persist : Program ε (Host sv) Bool) :=
  Netd.keeps_persist (fun generation stores hs => hs.writes generation stores)
    (fun _ hs => ⟨hs.rooted, hs.names, hs.file, hs.stored⟩)
    fun _ hs => ⟨hs.rooted, hs.names, hs.file, hs.stored⟩

theorem withGrants (hs : Holds P h) (grants : Option γ) : Holds P (h.withGrants grants) :=
  ⟨hs.rooted, hs.names, hs.file, hs.stored⟩

theorem keeps_withVerifier (missing : Bool) (f : γ → Bool × γ) :
    Keeps (Holds P) E (withVerifier missing f : Program ε (Host sv) Bool) :=
  Netd.keeps_withVerifier (fun g hs => hs.withGrants g) missing f

theorem keeps_rollback (scope : String) (epoch revision : UInt64) :
    Keeps (Holds P) E (rollback scope epoch revision : Program ε (Host sv) Unit) := by
  intro h hs
  exact (hs.noting fun frame heq => by cases heq).withPolicy _

theorem keeps_modifyOwned {f : Ownership → Ownership} (hoverlays : ∀ o, (f o).overlays = o.overlays)
    (hendpoints : ∀ o, (f o).endpoints = o.endpoints) (hrooted : ∀ o, o.Rooted → (f o).Rooted) :
    Keeps (Holds P) E (modifyOwned f : Program ε (Host sv) Unit) := by
  intro h hs
  refine hs.turn (hrooted _ hs.rooted) ?_
  rw [hoverlays, hendpoints]
  exact hs.names

theorem keeps_beginOverlayIntent (operationId : Witness.Id) (action : String)
    {desired : EffectReceipt} (routes addresses : List String)
    (hdesired : desired.isLegacyIdentity = false) :
    Keeps (Holds P) E (beginOverlayIntent operationId action desired routes addresses :
      Program ε (Host sv) Bool) := by
  refine (keeps_modify fun _ hs => hs.noting fun frame heq => by cases heq).bind fun _ h hs => ?_
  rw [wp_bind, wp_get]
  -- the intent that is put back stood in a sound state
  have hprevious := hs.rooted.vouched.intents desired.identity
  refine (Keeps.bind (E := E) ?_ fun _ => keeps_persist.bind fun ok => ?_) h hs
  · refine keeps_modifyOwned (fun _ => rfl) (fun _ => rfl) fun o ho => ?_
    refine ⟨ho.vouched.intend ⟨rfl, hdesired, fun prior hprior => ?_⟩, ho.parents⟩
    exact ho.vouched.receipts _ _ hprior
  · cases ok with
    | true => exact keeps_pure true
    | false =>
      refine Keeps.bind ?_ fun _ => keeps_pure false
      refine keeps_modifyOwned (fun _ => rfl) (fun _ => rfl) fun o ho => ?_
      cases hget : h.owned.overlayIntents.get desired.identity with
      | none => exact ⟨ho.vouched.forget _, ho.parents⟩
      | some previous => exact ⟨ho.vouched.intend (hprevious previous hget), ho.parents⟩

theorem keeps_markOverlayIntent (identity : String) (phase : IntentPhase) :
    Keeps (Holds P) E (markOverlayIntent identity phase : Program ε (Host sv) Bool) :=
  Keeps.bind (keeps_modifyOwned (fun _ => rfl) (fun _ => rfl) fun _ ho =>
    ⟨ho.vouched.advance identity (fun _ => rfl) fun _ => rfl, ho.parents⟩) fun _ => keeps_persist

theorem keeps_quarantine (entry : String) :
    Keeps (Holds P) E (modifyOwned (·.quarantine entry) : Program ε (Host sv) Unit) :=
  keeps_modifyOwned (fun _ => rfl) (fun _ => rfl) fun _ ho => ho.quarantine entry

end Holds
end Ferrocrate.Netd
