import Ferrocrate.Lib.Sha256
import Ferrocrate.Authorization.GrantEncoding
import Ferrocrate.Netd.Policy
import Ferrocrate.Netd.Receipt

/-! A grant is bound to one request (`request_binding.rs`): the action and the digest of the
parameters determine the request, and the signed bytes determine the claims. -/
namespace Ferrocrate.Netd
open Lib
open Authorization

structure Packages.WritesApart (pk : Packages) : Prop where
  strings : ∀ {a b : List String} {text : String}, pk.stringsJson a = some text →
    pk.stringsJson b = some text → a = b
  peers : ∀ {a b : List PeerSpec} {text : String}, pk.peersJson a = some text →
    pk.peersJson b = some text → a = b

def NetdRequest.action : NetdRequest → GrantAction
  | .applyOverlay _ _ _ _ _ => .networkCreate
  | .removeOverlay _ => .networkDelete
  | .attachEndpoint _ _ _ => .networkAttach
  | .detachEndpoint _ _ => .networkDetach
  | .inspect _ => .networkInspect

section Packages
variable {pk : Packages} {r r₁ r₂ : NetdRequest} {action : GrantAction}
  {p p₁ p₂ : GrantParameters}

theorem requestParameters_eq_ok (h : requestParameters pk r = .ok (action, p)) :
    ∃ operation fields, requestFields pk r = some (action, operation, fields) ∧
      p = ⟨operation, fields.insertionSort FieldLe, []⟩ ∧ p.Bounded := by
  unfold requestParameters at h
  split at h
  · cases h
  rename_i a operation fields hfields
  split at h
  · rename_i parameters hnew
    cases h
    exact ⟨operation, fields, hfields, GrantParameters.new_eq_ok hnew⟩
  · cases h

theorem requestFields_perm (h₁ : requestParameters pk r₁ = .ok (action, p))
    (h₂ : requestParameters pk r₂ = .ok (action, p)) :
    ∃ operation f₁ f₂, requestFields pk r₁ = some (action, operation, f₁) ∧
      requestFields pk r₂ = some (action, operation, f₂) ∧ f₁.Perm f₂ := by
  obtain ⟨operation, f₁, hf₁, rfl, -⟩ := requestParameters_eq_ok h₁
  obtain ⟨operation₂, f₂, hf₂, heq, -⟩ := requestParameters_eq_ok h₂
  obtain ⟨rfl, hsorted, -⟩ := GrantParameters.mk.inj heq
  refine ⟨operation, f₁, f₂, hf₁, hf₂, ?_⟩
  have hperm := List.perm_insertionSort FieldLe f₁
  rw [hsorted] at hperm
  exact hperm.symm.trans (List.perm_insertionSort FieldLe f₂)

theorem requestFields_action {operation : String} {fields : List (String × String)}
    (h : requestFields pk r = some (action, operation, fields)) : action = r.action := by
  cases r <;> simp only [requestFields, Option.map_eq_some_iff, Option.some.injEq,
    Prod.mk.injEq] at h
  case applyOverlay =>
    obtain ⟨-, -, h, -⟩ := h
    exact h.symm
  all_goals exact h.1.symm

theorem OverlayMode.asStr_injective : Function.Injective OverlayMode.asStr := by
  intro a b h
  cases a <;> cases b <;> first | rfl | exact absurd h (by decide)

theorem applyFields_inj (hjson : pk.WritesApart) {o₁ o₂ : String} {m₁ m₂ : OverlayMode}
    {ps₁ ps₂ : List PeerSpec} {rs₁ rs₂ as₁ as₂ : List String} {f₁ f₂ : List (String × String)}
    (h₁ : applyFields pk o₁ m₁ ps₁ rs₁ as₁ = some f₁)
    (h₂ : applyFields pk o₂ m₂ ps₂ rs₂ as₂ = some f₂) (hperm : f₁.Perm f₂) :
    o₁ = o₂ ∧ m₁ = m₂ ∧ ps₁ = ps₂ ∧ rs₁ = rs₂ ∧ as₁ = as₂ := by
  simp only [applyFields, Option.bind_eq_bind, Option.bind_eq_some_iff, Option.pure_def,
    Option.some.injEq] at h₁ h₂
  obtain ⟨p₁, hp₁, q₁, hq₁, a₁, ha₁, rfl⟩ := h₁
  obtain ⟨p₂, hp₂, q₂, hq₂, a₂, ha₂, rfl⟩ := h₂
  have hmem := fun key value => (hperm.mem_iff (a := (key, value))).mp
  have hoverlay : o₁ = o₂ := by simpa using hmem "overlay_id" o₁ (by simp)
  have hmode : m₁.asStr = m₂.asStr := by simpa using hmem "overlay_mode" m₁.asStr (by simp)
  obtain rfl : p₁ = p₂ := by simpa using hmem "peers" p₁ (by simp)
  obtain rfl : q₁ = q₂ := by simpa using hmem "routes" q₁ (by simp)
  obtain rfl : a₁ = a₂ := by simpa using hmem "addresses" a₁ (by simp)
  exact ⟨hoverlay, OverlayMode.asStr_injective hmode, hjson.peers hp₁ hp₂,
    hjson.strings hq₁ hq₂, hjson.strings ha₁ ha₂⟩

theorem netns_ne_empty {overlayId endpointId netns : String}
    (h : validateRequest pk (.attachEndpoint overlayId endpointId (some netns)) = .ok ()) :
    netns ≠ "" := by
  rintro rfl
  simp [validateRequest, validateNetnsName, validateName] at h

theorem netns_inj {o e : String} {n₁ n₂ : Option String}
    (h₁ : validateRequest pk (.attachEndpoint o e n₁) = .ok ())
    (h₂ : validateRequest pk (.attachEndpoint o e n₂) = .ok ())
    (h : n₁.getD "" = n₂.getD "") : n₁ = n₂ := by
  cases n₁ with
  | none =>
    cases n₂ with
    | none => rfl
    | some b => exact absurd h.symm (netns_ne_empty h₂)
  | some a =>
    cases n₂ with
    | none => exact absurd h (netns_ne_empty h₁)
    | some b => exact congrArg some h

theorem requestParameters_inj (hjson : pk.WritesApart) (hv₁ : validateRequest pk r₁ = .ok ())
    (hv₂ : validateRequest pk r₂ = .ok ()) (h₁ : requestParameters pk r₁ = .ok (action, p))
    (h₂ : requestParameters pk r₂ = .ok (action, p)) : r₁ = r₂ := by
  obtain ⟨operation, f₁, f₂, hf₁, hf₂, hperm⟩ := requestFields_perm h₁ h₂
  have hmem := fun key value => (hperm.mem_iff (a := (key, value))).mp
  -- requests of different kinds need grants for different actions
  have haction : r₁.action = r₂.action :=
    (requestFields_action hf₁).symm.trans (requestFields_action hf₂)
  cases r₁ <;> cases r₂ <;> try cases haction
  all_goals
    simp only [requestFields, Option.map_eq_some_iff, Option.some.injEq, Prod.mk.injEq] at hf₁ hf₂
  case applyOverlay.applyOverlay =>
    obtain ⟨f₁, hfields₁, -, -, rfl⟩ := hf₁
    obtain ⟨f₂, hfields₂, -, -, rfl⟩ := hf₂
    obtain ⟨rfl, rfl, rfl, rfl, rfl⟩ := applyFields_inj hjson hfields₁ hfields₂ hperm
    rfl
  case removeOverlay.removeOverlay o₁ o₂ =>
    obtain ⟨-, -, rfl⟩ := hf₁
    obtain ⟨-, -, rfl⟩ := hf₂
    obtain rfl : o₁ = o₂ := by simpa using hmem "overlay_id" o₁ (by simp)
    rfl
  case attachEndpoint.attachEndpoint o₁ e₁ n₁ o₂ e₂ n₂ =>
    obtain ⟨-, -, rfl⟩ := hf₁
    obtain ⟨-, -, rfl⟩ := hf₂
    obtain rfl : o₁ = o₂ := by simpa using hmem "overlay_id" o₁ (by simp)
    obtain rfl : e₁ = e₂ := by simpa using hmem "endpoint_id" e₁ (by simp)
    have hnetns : n₁.getD "" = n₂.getD "" := by simpa using hmem "netns" (n₁.getD "") (by simp)
    rw [netns_inj hv₁ hv₂ hnetns]
  case detachEndpoint.detachEndpoint o₁ e₁ o₂ e₂ =>
    obtain ⟨-, -, rfl⟩ := hf₁
    obtain ⟨-, -, rfl⟩ := hf₂
    obtain rfl : o₁ = o₂ := by simpa using hmem "overlay_id" o₁ (by simp)
    obtain rfl : e₁ = e₂ := by simpa using hmem "endpoint_id" e₁ (by simp)
    rfl
  case inspect.inspect o₁ o₂ =>
    obtain ⟨-, -, rfl⟩ := hf₁
    obtain ⟨-, -, rfl⟩ := hf₂
    obtain rfl : o₁ = o₂ := by simpa using hmem "overlay_id" o₁ (by simp)
    rfl

end Packages

/-- A grant authorises one request. Between two requests that pass the policy, an action and a
parameter digest stand for one only, as long as the hash tells their parameters apart; and signed
bytes stand for one claim only, as long as the lengths of its texts fit in the four bytes they are
written in. -/
theorem helper_grant_authorises_one_request (pk : Packages) (hjson : pk.WritesApart) :
    (∀ r₁ r₂ action p₁ p₂, validateRequest pk r₁ = .ok () → validateRequest pk r₂ = .ok () →
      requestParameters pk r₁ = .ok (action, p₁) → requestParameters pk r₂ = .ok (action, p₂) →
      Set.InjOn pk.sha256 {p₁.message, p₂.message} →
      p₁.digest pk.sha256 = p₂.digest pk.sha256 → r₁ = r₂) ∧
    ∀ c₁ c₂ : GrantClaims, c₁.ShortTexts → c₂.ShortTexts →
      c₁.signingBytes = c₂.signingBytes → c₁ = c₂ := by
  constructor
  · intro r₁ r₂ action p₁ p₂ hv₁ hv₂ h₁ h₂ hsha hdigest
    obtain ⟨-, -, -, -, hb₁⟩ := requestParameters_eq_ok h₁
    obtain ⟨-, -, -, -, hb₂⟩ := requestParameters_eq_ok h₂
    have hmessage : p₁.message = p₂.message := hsha (by simp) (by simp) hdigest
    obtain rfl := GrantParameters.message_injOn hb₁ hb₂ hmessage
    exact requestParameters_inj hjson hv₁ hv₂ h₁ h₂
  · intro c₁ c₂ hc₁ hc₂ h
    exact GrantClaims.signingBytes_injOn hc₁ hc₂ h

def boundPackages : Packages where
  ed := .recorded (.zero 32) []
  sha256 := Sha256.sha256
  isAlphanumeric := Char.isAlphanum
  base64Decode _ := none
  base64Encode _ := ""
  isIpNet s := s = "10.42.0.0/24"
  isSocketAddr _ := false
  readsGrantedDesired _ := false
  readDesired _ := none
  readGranted _ := none
  readSigned _ := none
  decodeDesired _ := none
  desiredJson _ := none
  signedJson _ := none
  stringJson _ := none
  optionJson _ := none
  stringsJson values :=
    if values = [] then some "[]"
    else if values = ["10.42.0.0/24"] then some "[\"10.42.0.0/24\"]"
    else none
  peersJson peers := if peers = [] then some "[]" else none
  peerKeysJson _ := none

theorem boundPackages_writesApart : boundPackages.WritesApart where
  strings ha hb := by
    simp only [boundPackages] at ha hb
    grind
  peers ha hb := by
    simp only [boundPackages] at ha hb
    grind

def bridgeRequest : NetdRequest := .applyOverlay "app" .bridgeOnly [] ["10.42.0.0/24"] []

def bridgeClaims : GrantClaims where
  schemaVersion := 1
  requestId := "request-1"
  action := .networkCreate
  resource := ⟨"11111111-2222-3333-4444-555555555555", 1⟩
  parameterDigest := .fill 32 7
  bootId := "boot-1"
  wallDeadlineSecs := 60
  monotonicDeadlineMillis := 60000
  nonce := .fill 16 1
  operationId := .fill 16 1
  requestDigest := .fill 32 7
  preconditionDigest := .fill 32 7
  recoveryRecipeDigest := .fill 32 7
  issuer := "ferro-mgr"
  keyId := "key-1"
  kind := .mutation
  originRequestId := none
  liveIdentityDigest := none

theorem bridge_grant_authorises_one_request :
    boundPackages.WritesApart ∧
    (∃ p, requestParameters boundPackages bridgeRequest = .ok (.networkCreate, p) ∧
      ∀ r, validateRequest boundPackages r = .ok () →
        requestParameters boundPackages r = .ok (.networkCreate, p) → r = bridgeRequest) ∧
    bridgeClaims.ShortTexts ∧
    ∀ c : GrantClaims, c.ShortTexts → c.signingBytes = bridgeClaims.signingBytes →
      c = bridgeClaims := by
  obtain ⟨hrequests, hclaims⟩ :=
    helper_grant_authorises_one_request boundPackages boundPackages_writesApart
  have hvalid : validateRequest boundPackages bridgeRequest = .ok () := by decide +kernel
  have hsome : (requestParameters boundPackages bridgeRequest).toOption.isSome = true := by
    decide +kernel
  have hshort : bridgeClaims.ShortTexts := by decide +kernel
  refine ⟨boundPackages_writesApart, ?_, hshort, fun c hc h => hclaims c _ hc hshort h⟩
  cases hp : requestParameters boundPackages bridgeRequest with
  | error code =>
    rw [hp] at hsome
    cases hsome
  | ok granted =>
    obtain ⟨action, p⟩ := granted
    obtain ⟨operation, fields, hfields, -⟩ := requestParameters_eq_ok hp
    obtain rfl : action = .networkCreate := requestFields_action hfields
    refine ⟨p, rfl, fun r hr h => ?_⟩
    exact hrequests r _ .networkCreate p p hr hvalid h hp (by simp) rfl

def zeroText (n : Nat) : String := String.ofList (List.replicate n (Char.ofNat 0))

theorem utf8_zeroText (n : Nat) : utf8 (zeroText n) = List.replicate n 0 := by
  have hchar : String.utf8EncodeChar (Char.ofNat 0) = [0] := by decide
  simp [utf8, zeroText, List.utf8Encode, List.flatMap_replicate, hchar]

theorem pushText_zeroText {n : Nat} (h : u32Be n = List.replicate 4 0) (rest : Bytes) :
    pushText (zeroText n) ++ (pushText "" ++ rest)
      = pushText "" ++ (pushText (zeroText n) ++ rest) := by
  have hempty : pushText "" = List.replicate 4 0 := by decide
  have htext : pushText (zeroText n) = List.replicate (4 + n) 0 := by
    rw [pushText, ← length_utf8, utf8_zeroText, List.length_replicate, h,
      List.replicate_append_replicate]
  rw [hempty, htext, ← List.append_assoc, ← List.append_assoc, List.replicate_append_replicate,
    List.replicate_append_replicate, Nat.add_comm]

theorem zeroText_ne_empty {n : Nat} (h : 0 < n) : zeroText n ≠ "" := by
  intro heq
  have hlength := congrArg (fun text => (utf8 text).length) heq
  simp only [utf8_zeroText, List.length_replicate] at hlength
  exact h.ne' hlength

def longIssuerClaims : GrantClaims :=
  { bridgeClaims with issuer := zeroText (2 ^ 32), keyId := "" }

def longKeyClaims : GrantClaims :=
  { bridgeClaims with issuer := "", keyId := zeroText (2 ^ 32) }

/-- Past four bytes of length the signed bytes do not tell two claims apart. -/
theorem long_texts_share_signing_bytes :
    longIssuerClaims.signingBytes = longKeyClaims.signingBytes ∧
      longIssuerClaims ≠ longKeyClaims := by
  constructor
  · unfold GrantClaims.signingBytes longIssuerClaims longKeyClaims
    rw [pushText_zeroText (by decide)]
  · intro h
    exact zeroText_ne_empty (by decide) (congrArg GrantClaims.issuer h)

end Ferrocrate.Netd
