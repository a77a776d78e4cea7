import Ferrocrate.Authorization.Delegation
import Ferrocrate.Lib.Codec

/-! The wire form of a delegation assertion (`authorization/cri_delegation.rs`): its signed claims
behind their length, and the signature. -/
namespace Ferrocrate.Authorization
open Lib Lib.Reader
open Witness (Signature)

def Action.json (action : Action) : String := "\"" ++ action.name ++ "\""

def slice (bytes : Bytes) (start stop : Nat) : Option Bytes :=
  if start ≤ stop ∧ stop ≤ bytes.length then some ((bytes.take stop).drop start) else none

namespace DelegationAssertion

def new (claims : CriDelegationClaims) (signature : Signature) :
    Except DelegationError DelegationAssertion := do
  claims.validate
  pure ⟨claims, signature⟩

def wireBytes (a : DelegationAssertion) : Bytes :=
  u32Be a.claims.signingBytes.length ++ (a.claims.signingBytes ++ a.signature.val)

/-! The cursor of `parse_canonical_claims`. -/

def text : Reader DelegationError String := do
  let length ← Reader.u32 .malformed
  if length = 0 ∨ length > maxTextBytes then throw .bounds
  else do
    let bytes ← Reader.take .malformed length
    match String.fromUTF8? bytes.toByteArray with
    | some value => pure value
    | none => throw .malformed

def scopeCount : Reader DelegationError Nat := do
  let count ← Reader.u32 .malformed
  if count = 0 ∨ count > maxScopeItems then throw .bounds else pure count

section Json
variable (fromJson : String → Option Action)

def action : Reader DelegationError Action := do
  let value ← text
  match fromJson value with
  | some action => pure action
  | none => throw .malformed

def canonicalClaims : Reader DelegationError CriDelegationClaims := do
  let domain ← Reader.take .malformed CriDelegationClaims.wireDomain.length
  if domain ≠ CriDelegationClaims.wireDomain then throw .malformed
  else do
    let issuer ← text
    let keyId ← text
    let transportSubject ← text
    let audience ← text
    let delegatedPrincipal ← text
    let actionCount ← scopeCount
    let allowedActions ← Reader.many (action fromJson) actionCount
    let resourceCount ← scopeCount
    let allowedResources ← Reader.many text resourceCount
    let nonce ← text
    let deadlineUnixMs ← Reader.u64 .malformed
    let bootId ← text
    let policyDigest ← Reader.fixed .malformed 32
    pure ⟨issuer, keyId, transportSubject, audience, delegatedPrincipal, allowedActions,
      allowedResources, nonce, deadlineUnixMs, bootId, policyDigest⟩

def parseCanonicalClaims (bytes : Bytes) : Except DelegationError CriDelegationClaims := do
  let claims ← Reader.whole (canonicalClaims fromJson) .malformed bytes
  claims.validate
  pure claims

def fromWireBytes (wire : Bytes) : Option (Except DelegationError DelegationAssertion) :=
  if wire.length < 4 + CriDelegationClaims.wireDomain.length + 64
      ∨ wire.length > 4 + maxCanonicalBytes + 64 then some (.error .malformed)
  else do
    let declared ← slice wire 0 4
    let canonicalLen := ofBe declared
    if canonicalLen > maxCanonicalBytes ∨ wire.length ≠ 4 + canonicalLen + 64 then
      some (.error .malformed)
    else do
      let canonical ← slice wire 4 (4 + canonicalLen)
      match parseCanonicalClaims fromJson canonical with
      | .error e => some (.error e)
      | .ok claims =>
        if claims.signingBytes ≠ canonical then some (.error .malformed)
        else do
          let signature ← slice wire (4 + canonicalLen) wire.length
          if h : signature.length = 64 then some (new claims ⟨signature, h⟩)
          else some (.error .malformed)

end Json

theorem new_eq_ok {claims : CriDelegationClaims} {signature : Signature} {a : DelegationAssertion} :
    new claims signature = .ok a ↔ claims.validate = .ok () ∧ a = ⟨claims, signature⟩ := by
  rw [new, Except.bind_eq_ok]
  constructor
  · intro h
    obtain ⟨⟨⟩, hvalid, hnew⟩ := h
    exact ⟨hvalid, (Except.ok.inj hnew).symm⟩
  · intro h
    exact ⟨(), h.1, congrArg Except.ok h.2.symm⟩

def Bounded (value : String) : Prop := 0 < value.utf8ByteSize ∧ value.utf8ByteSize ≤ maxTextBytes

theorem text_readsOn : ReadsOn Bounded text putText := by
  intro value rest h
  have hlength : value.utf8ByteSize < 2 ^ 32 := by
    have := h.2
    simp only [maxTextBytes] at this
    omega
  have hutf8 : String.fromUTF8? value.toUTF8.toList.toByteArray = some value := by
    have hvalid : value.toUTF8.IsValidUTF8 := value.isValidUTF8
    rw [toList_toByteArray, String.fromUTF8?, dif_pos hvalid]
    rfl
  rw [putText, List.append_assoc]
  refine (bind_of_ok (u32_readsOn DelegationError.malformed _ _ hlength)).trans ?_
  rw [if_neg (by have := h.1; have := h.2; omega)]
  refine (bind_of_ok (take_append _ _ rest (length_toUTF8 value))).trans ?_
  rw [hutf8]
  rfl

theorem scopeCount_readsOn :
    ReadsOn (fun count => 0 < count ∧ count ≤ maxScopeItems) scopeCount u32Be := by
  intro count rest h
  have hbounds : 0 < count ∧ count ≤ 64 := h
  have hcount : ¬(count = 0 ∨ count > maxScopeItems) := by
    simp only [maxScopeItems]
    omega
  refine (bind_of_ok (u32_readsOn DelegationError.malformed _ _ (by omega))).trans ?_
  rw [if_neg hcount]
  rfl

theorem bounded_json (action : Action) : Bounded action.json := by
  cases action <;> exact ⟨by decide +kernel, by decide +kernel⟩

theorem action_readsOn {fromJson : String → Option Action}
    (hjson : ∀ action : Action, fromJson action.json = some action) :
    ReadsOn (fun _ => True) (action fromJson) (fun action => putText action.json) := by
  intro a rest _
  refine (bind_of_ok (text_readsOn a.json rest (bounded_json a))).trans ?_
  rw [hjson]
  rfl

structure Valid (c : CriDelegationClaims) : Prop where
  issuer : Bounded c.issuer
  keyId : Bounded c.keyId
  transportSubject : Bounded c.transportSubject
  audience : Bounded c.audience
  delegatedPrincipal : Bounded c.delegatedPrincipal
  actions : 0 < c.allowedActions.length ∧ c.allowedActions.length ≤ maxScopeItems
  resourceCount : 0 < c.allowedResources.length ∧ c.allowedResources.length ≤ maxScopeItems
  resources : ∀ resource ∈ c.allowedResources, Bounded resource
  nonce : Bounded c.nonce
  bootId : Bounded c.bootId
  size : c.signingBytes.length ≤ maxCanonicalBytes

theorem bounded_of_not_outOfBounds {value : String}
    (h : ¬CriDelegationClaims.outOfBounds value = true) : Bounded value := by
  simp only [CriDelegationClaims.outOfBounds, Bool.or_eq_true, decide_eq_true_eq, not_or,
    not_lt, String.isEmpty, beq_iff_eq] at h
  exact ⟨Nat.pos_of_ne_zero h.1, h.2⟩

theorem valid_of_validate {c : CriDelegationClaims} (h : c.validate = .ok ()) : Valid c := by
  simp only [CriDelegationClaims.validate, Except.ite_error_eq_ok, not_or, List.any_cons,
    List.any_nil, Bool.or_eq_true, Bool.or_false, not_lt, gt_iff_lt, List.any_eq_true, not_exists,
    not_and] at h
  obtain ⟨⟨htexts, hsome, hactions, hsomeResource, hresources, htext⟩, hsize, -⟩ := h
  obtain ⟨hissuer, hkey, hsubject, haudience, hprincipal, hnonce, hboot⟩ := htexts
  exact {
    issuer := bounded_of_not_outOfBounds hissuer
    keyId := bounded_of_not_outOfBounds hkey
    transportSubject := bounded_of_not_outOfBounds hsubject
    audience := bounded_of_not_outOfBounds haudience
    delegatedPrincipal := bounded_of_not_outOfBounds hprincipal
    actions := ⟨List.length_pos_of_ne_nil hsome, hactions⟩
    resourceCount := ⟨List.length_pos_of_ne_nil hsomeResource, hresources⟩
    resources := fun resource hmem => bounded_of_not_outOfBounds (htext resource hmem)
    nonce := bounded_of_not_outOfBounds hnonce
    bootId := bounded_of_not_outOfBounds hboot
    size := hsize }

section RoundTrip
variable {fromJson : String → Option Action} {c : CriDelegationClaims}

theorem canonicalClaims_signingBytes
    (hjson : ∀ action : Action, fromJson action.json = some action)
    (h : Valid c) : canonicalClaims fromJson c.signingBytes = .ok (c, []) := by
  have hdigest := Reader.fixed_reads DelegationError.malformed 32 c.policyDigest []
  rw [List.append_nil] at hdigest
  have hactions := Reader.many_reads (action_readsOn hjson) c.allowedActions
  have hresources := Reader.many_reads text_readsOn c.allowedResources
  simp only [canonicalClaims, CriDelegationClaims.signingBytes, List.flatMap_cons, List.flatMap_nil,
    List.append_nil, List.append_assoc]
  refine (bind_of_ok (take_append DelegationError.malformed _ _ rfl)).trans ?_
  rw [if_neg (not_not.mpr rfl)]
  refine (bind_of_ok (text_readsOn _ _ h.issuer)).trans ?_
  refine (bind_of_ok (text_readsOn _ _ h.keyId)).trans ?_
  refine (bind_of_ok (text_readsOn _ _ h.transportSubject)).trans ?_
  refine (bind_of_ok (text_readsOn _ _ h.audience)).trans ?_
  refine (bind_of_ok (text_readsOn _ _ h.delegatedPrincipal)).trans ?_
  refine (bind_of_ok (scopeCount_readsOn _ _ h.actions)).trans ?_
  refine (bind_of_ok (hactions _ fun _ _ => trivial)).trans ?_
  refine (bind_of_ok (scopeCount_readsOn _ _ h.resourceCount)).trans ?_
  refine (bind_of_ok (hresources _ h.resources)).trans ?_
  refine (bind_of_ok (text_readsOn _ _ h.nonce)).trans ?_
  refine (bind_of_ok (Reader.u64_reads _ _ _)).trans ?_
  refine (bind_of_ok (text_readsOn _ _ h.bootId)).trans ?_
  exact (bind_of_ok hdigest).trans rfl

theorem parseCanonicalClaims_signingBytes
    (hjson : ∀ action : Action, fromJson action.json = some action)
    (h : c.validate = .ok ()) : parseCanonicalClaims fromJson c.signingBytes = .ok c := by
  have hwhole : Reader.whole (canonicalClaims fromJson) .malformed c.signingBytes = .ok c := by
    rw [Reader.whole, canonicalClaims_signingBytes hjson (valid_of_validate h)]
    rfl
  rw [parseCanonicalClaims, hwhole]
  exact Except.bind_eq_ok.mpr ⟨c, rfl, Except.bind_eq_ok.mpr ⟨(), h, rfl⟩⟩

theorem length_wireDomain_le (c : CriDelegationClaims) :
    CriDelegationClaims.wireDomain.length ≤ c.signingBytes.length := by
  rw [CriDelegationClaims.signingBytes, List.length_append]
  exact Nat.le_add_right _ _

theorem length_wireBytes (a : DelegationAssertion) :
    a.wireBytes.length = 4 + a.claims.signingBytes.length + 64 := by
  simp only [wireBytes, List.length_append, length_u32Be, FixedBytes.length_val, Nat.add_assoc]

theorem slice_eq {bytes : Bytes} {start stop : Nat} (h : start ≤ stop ∧ stop ≤ bytes.length) :
    slice bytes start stop = some ((bytes.take stop).drop start) := if_pos h

variable {a : DelegationAssertion}

theorem fromWireBytes_wireBytes
    (hjson : ∀ action : Action, fromJson action.json = some action)
    (h : a.claims.validate = .ok ()) : fromWireBytes fromJson a.wireBytes = some (.ok a) := by
  have hlen := a.length_wireBytes
  have hdomain := length_wireDomain_le a.claims
  have hsize : a.claims.signingBytes.length ≤ 65536 := (valid_of_validate h).size
  have hdeclared : slice a.wireBytes 0 4 = some (u32Be a.claims.signingBytes.length) := by
    rw [slice_eq (by omega), List.drop_zero, wireBytes, List.take_left' (length_u32Be _)]
  have hcanonical : slice a.wireBytes 4 (4 + a.claims.signingBytes.length)
      = some a.claims.signingBytes := by
    rw [slice_eq (by omega), List.drop_take, wireBytes, List.drop_left' (length_u32Be _),
      Nat.add_sub_cancel_left, List.take_left]
  have hsignature : slice a.wireBytes (4 + a.claims.signingBytes.length) a.wireBytes.length
      = some a.signature.val := by
    rw [slice_eq (by omega), List.take_length, ← List.drop_drop, wireBytes,
      List.drop_left' (length_u32Be _), List.drop_left]
  have hcount : ofBe (u32Be a.claims.signingBytes.length) = a.claims.signingBytes.length :=
    ofBe_u32Be (by omega)
  have hbounds : ¬(a.wireBytes.length < 4 + CriDelegationClaims.wireDomain.length + 64
      ∨ a.wireBytes.length > 4 + maxCanonicalBytes + 64) := by
    simp only [maxCanonicalBytes]
    omega
  have hexact : ¬(a.claims.signingBytes.length > maxCanonicalBytes
      ∨ a.wireBytes.length ≠ 4 + a.claims.signingBytes.length + 64) := by
    simp only [maxCanonicalBytes]
    omega
  have hnew : new a.claims ⟨a.signature.val, a.signature.length_eq⟩ = .ok a :=
    new_eq_ok.mpr ⟨h, rfl⟩
  rw [fromWireBytes, if_neg hbounds, hdeclared]
  simp only [Option.bind_eq_bind, Option.bind_some, hcount, if_neg hexact, hcanonical,
    parseCanonicalClaims_signingBytes hjson h, ne_eq, not_true, if_false, hsignature,
    FixedBytes.length_val, dif_pos, hnew]

theorem fromWireBytes_ne_none (fromJson : String → Option Action) (wire : Bytes) :
    fromWireBytes fromJson wire ≠ none := by
  intro hnone
  unfold fromWireBytes at hnone
  split at hnone
  · cases hnone
  next hbounds =>
  rw [slice_eq (by omega)] at hnone
  simp only [Option.bind_eq_bind, Option.bind_some] at hnone
  split at hnone
  · cases hnone
  next hexact =>
  rw [slice_eq (by omega)] at hnone
  simp only [Option.bind_some] at hnone
  split at hnone
  · cases hnone
  · split at hnone
    · cases hnone
    · rw [slice_eq (by omega)] at hnone
      simp only [Option.bind_some] at hnone
      split at hnone <;> cases hnone

theorem wireBytes_of_fromWireBytes {wire : Bytes}
    (h : fromWireBytes fromJson wire = some (.ok a)) :
    a.claims.validate = .ok () ∧ a.wireBytes = wire := by
  unfold fromWireBytes at h
  split at h
  · cases h
  next hbounds =>
  rw [slice_eq (by omega)] at h
  simp only [Option.bind_eq_bind, Option.bind_some, List.drop_zero] at h
  split at h
  · cases h
  next hexact =>
  rw [slice_eq (by omega)] at h
  simp only [Option.bind_some] at h
  split at h
  · cases h
  next claims hclaims =>
  split at h
  · cases h
  next hcanonical =>
  rw [slice_eq (by omega)] at h
  simp only [Option.bind_some] at h
  split at h
  next hsignature =>
    obtain ⟨hvalid, rfl⟩ := new_eq_ok.mp (Option.some.inj h)
    refine ⟨hvalid, ?_⟩
    have hfour : (wire.take 4).length = 4 := by
      rw [List.length_take]
      omega
    have hlength : claims.signingBytes.length = ofBe (wire.take 4) := by
      rw [not_not.mp hcanonical, List.length_drop, List.length_take]
      omega
    have hdigits : u32Be claims.signingBytes.length = wire.take 4 := by
      have hbe := toBe_ofBe (wire.take 4)
      rw [hfour, ← hlength] at hbe
      exact hbe
    have hmiddle : claims.signingBytes = (wire.drop 4).take claims.signingBytes.length := by
      conv_lhs => rw [not_not.mp hcanonical, List.drop_take, Nat.add_sub_cancel_left, ← hlength]
    calc u32Be claims.signingBytes.length ++ (claims.signingBytes
          ++ (wire.take wire.length).drop (4 + ofBe (wire.take 4)))
        = wire.take 4 ++ ((wire.drop 4).take claims.signingBytes.length
          ++ (wire.drop 4).drop claims.signingBytes.length) := by
          rw [hdigits, ← hmiddle, List.take_length, ← hlength, List.drop_drop]
      _ = wire := by rw [List.take_append_drop, List.take_append_drop]
  next => cases h

theorem signingBytes_injOn
    (hjson : ∀ action : Action, fromJson action.json = some action) :
    Set.InjOn CriDelegationClaims.signingBytes {c | c.validate = .ok ()} := by
  intro c hc d hd heq
  have hread := parseCanonicalClaims_signingBytes hjson hc
  rw [heq, parseCanonicalClaims_signingBytes hjson hd] at hread
  exact (Except.ok.inj hread).symm

/-- The wire codec of delegations: what can be made comes back, what is accepted is what it is
written as, one signed string covers one claim, and every input has a result. -/
theorem delegation_codec (fromJson : String → Option Action)
    (hjson : ∀ action : Action, fromJson action.json = some action) :
    (∀ claims signature a, new claims signature = .ok a →
      fromWireBytes fromJson a.wireBytes = some (.ok a)) ∧
    (∀ wire a, fromWireBytes fromJson wire = some (.ok a) → a.wireBytes = wire) ∧
    Set.InjOn CriDelegationClaims.signingBytes {c | c.validate = .ok ()} ∧
    ∀ wire, ∃ result, fromWireBytes fromJson wire = some result := by
  refine ⟨fun claims signature a h => ?_, fun wire a h => (wireBytes_of_fromWireBytes h).2,
    signingBytes_injOn hjson, fun wire => ?_⟩
  · obtain ⟨hvalid, rfl⟩ := new_eq_ok.mp h
    exact fromWireBytes_wireBytes hjson hvalid
  · exact Option.ne_none_iff_exists'.mp (fromWireBytes_ne_none fromJson wire)

end RoundTrip

def actionTable (value : String) : Option Action :=
  [.containerCreate, .containerRun, .containerExec, .containerPause, .containerResume,
    .containerStop, .containerKill, .containerRestart, .containerStart, .containerDelete,
    .containerRename, .containerUpdate, .containerArchiveWrite, .imagePull, .imageDelete,
    .imageBuild, .imageTag, .imageReferenceWrite, .volumeCreate, .volumeDelete, .volumeMount,
    .volumeUnmount, .volumeBackup, .volumeRestore, .networkCreate, .networkDelete, .networkAttach,
    .networkDetach, .deviceUse, .policyReload, .policyRollback, .checkpointPublish,
    .checkpointRecover, .keyRotate, .rootlessMapping].find? fun action : Action =>
      action.json = value

theorem actionTable_json (action : Action) : actionTable action.json = some action := by
  cases action <;> decide +kernel

def createClaims : CriDelegationClaims :=
  ⟨"issuer", "key", "subject", "audience", "principal", [.containerCreate], ["resource"], "nonce",
    1, "boot", .zero 32⟩

theorem delegation_codec_create :
    fromWireBytes actionTable (DelegationAssertion.mk createClaims (.zero 64)).wireBytes
      = some (.ok ⟨createClaims, .zero 64⟩) := by
  have hvalid : createClaims.validate = .ok () := by decide +kernel
  have hnew := new_eq_ok.mpr ⟨hvalid, (rfl : DelegationAssertion.mk createClaims (.zero 64) = _)⟩
  exact (delegation_codec actionTable actionTable_json).1 createClaims (.zero 64) _ hnew

end DelegationAssertion
end Ferrocrate.Authorization
