import Ferrocrate.Lib.Loops
import Ferrocrate.Agent.DesiredAuthorization

/-! What the operations of an accepted bundle do: they bring the overlays of a node to the desired
state, and the helper is asked for what the agent has checked. -/
namespace Ferrocrate.Agent
open Lib
open Netd
open DesiredAuthorizationBundle

structure OverlaySpec where
  mode : OverlayMode
  peers : List PeerSpec
  routes : List String
  addresses : List String
deriving DecidableEq

abbrev Overlays := OrdMap String OverlaySpec

def executeOperation (m : Overlays) (operation : GrantedEnvelope) : Overlays :=
  match operation.envelope.request with
  | .applyOverlay overlayId mode peers routes addresses =>
    m.insert overlayId ⟨mode, peers, routes, addresses⟩
  | .removeOverlay overlayId => m.erase overlayId
  | .attachEndpoint _ _ _ | .detachEndpoint _ _ | .inspect _ => m

def execute (m : Overlays) (operations : List GrantedEnvelope) : Overlays :=
  operations.foldl executeOperation m

section Packages
variable (pk : AgentPackages)

def specification (overlay : OverlayState) : Option OverlaySpec :=
  overlay.wireguard.map fun wireguard =>
    ⟨if wireguard then .wireGuard else .bridgeOnly,
      overlay.peers.map fun peer =>
        ⟨peer.nodeId, pk.base64Encode peer.publicKey, peer.endpoint, peer.allowedIps⟩,
      overlay.routes, overlay.addresses⟩

structure Realises (m : Overlays) (desired : DesiredState) : Prop where
  keys : ∀ id, (m.get id).isSome ↔ ∃ overlay ∈ desired.overlays, overlay.overlayId = id
  values : ∀ overlay ∈ desired.overlays, (m.get overlay.overlayId).isSome ∧
    m.get overlay.overlayId = specification pk overlay

def Agrees (operation : GrantedEnvelope) : Prop :=
  ∃ parameters,
    operationParameters pk operation.envelope.request
      = .ok (operation.grant.claims.action, parameters) ∧
    requestParameters pk.toPackages operation.envelope.request
      = .ok (operation.grant.claims.action, parameters) ∧
    operation.grant.claims.parameterDigest = parameters.digest pk.sha256

variable {pk}

theorem operationFields_eq_ok {request : NetdRequest} {fields}
    (h : operationFields pk request = .ok fields) :
    requestFields pk.toPackages request = some fields := by
  cases request <;> simp only [operationFields] at h
  case applyOverlay overlayId mode peers routes addresses =>
    split at h
    · rename_i p r a hp hr ha
      cases h
      cases mode <;> simp [requestFields, applyFields, hp, hr, ha]
    · cases h
  case removeOverlay overlayId =>
    cases h
    rfl
  all_goals cases h

theorem operationParameters_eq_ok {request : NetdRequest} {parameters}
    (h : operationParameters pk request = .ok parameters) :
    requestParameters pk.toPackages request = .ok parameters := by
  obtain ⟨⟨action, name, fields⟩, hfields, h⟩ := Except.bind_eq_ok.mp h
  rw [requestParameters, operationFields_eq_ok hfields]
  dsimp only at h ⊢
  cases hencoded : Authorization.GrantParameters.new name fields [] with
  | error e =>
    rw [hencoded] at h
    cases h
  | ok encoded =>
    rw [hencoded] at h
    cases h
    rfl

variable {b : DesiredAuthorizationBundle} {operation : GrantedEnvelope}

theorem agrees_of_binding
    (h : b.validateEnvelopeBinding pk operation = .ok ()) : Agrees pk operation := by
  obtain ⟨-, h⟩ := Except.ite_error_eq_ok.mp h
  obtain ⟨⟨action, parameters⟩, hparameters, h⟩ := Except.bind_eq_ok.mp h
  obtain ⟨hne, -⟩ := Except.ite_error_eq_ok.mp h
  simp only [ne_eq, not_or, not_not] at hne
  refine ⟨parameters, ?_, ?_, hne.2⟩
  · rw [hparameters, hne.1]
  · rw [operationParameters_eq_ok hparameters, hne.1]

variable {desired : DesiredState}

theorem decodeAndVerify_eq_ok {encoded : Bytes}
    {key : pk.ed.VerifyingKey} {nowUnix : Int64}
    (h : decodeAndVerify pk encoded desired key nowUnix = .ok b) :
    ∀ operation ∈ b.operations, Agrees pk operation := by
  unfold decodeAndVerify at h
  split at h
  · cases h
  obtain ⟨-, h⟩ := Except.ite_error_eq_ok.mp h
  obtain ⟨-, -, h⟩ := Except.bind_eq_ok.mp h
  obtain ⟨⟨⟩, hbindings, h⟩ := Except.bind_eq_ok.mp h
  cases h
  exact fun operation hop => agrees_of_binding (Except.forM_eq_ok hbindings operation hop)

variable {overlay : OverlayState}

theorem specification_of_matches {mode : OverlayMode}
    {peers : List PeerSpec} {routes addresses : List String}
    (h : matchesOverlay pk overlay mode peers routes addresses = true) :
    specification pk overlay = some ⟨mode, peers, routes, addresses⟩ := by
  simp only [matchesOverlay, decide_eq_true_eq] at h
  obtain ⟨rfl, rfl, rfl, hsome, hmode⟩ := h
  obtain ⟨wireguard, hw⟩ := Option.isSome_iff_exists.mp hsome
  rw [specification, hw]
  cases wireguard <;> cases mode <;> simp_all

def firstSpecification (pk : AgentPackages) (desired : DesiredState) (id : String) :
    Option OverlaySpec :=
  (desired.overlays.find? (·.overlayId = id)).bind (specification pk)

def applied (operations : List GrantedEnvelope) : List String :=
  operations.filterMap fun operation => match operation.envelope.request with
    | .applyOverlay overlayId _ _ _ _ => some overlayId
    | _ => none

def removed (operations : List GrantedEnvelope) : List String :=
  operations.filterMap fun operation => match operation.envelope.request with
    | .removeOverlay overlayId => some overlayId
    | _ => none

theorem transitionStep_cases {t t' : Transition} (h : transitionStep pk desired t operation = .ok t') :
    (∃ overlayId mode peers routes addresses,
      operation.envelope.request = .applyOverlay overlayId mode peers routes addresses ∧
      firstSpecification pk desired overlayId = some ⟨mode, peers, routes, addresses⟩ ∧
      t' = { t with applies := insert overlayId t.applies }) ∨
    (∃ overlayId, operation.envelope.request = .removeOverlay overlayId ∧
      t' = { t with removals := insert overlayId t.removals }) := by
  unfold transitionStep at h
  split at h
  · rename_i overlayId mode peers routes addresses hrequest
    split at h
    · cases h
    rename_i overlay hfind
    obtain ⟨hok, h⟩ := Except.ite_error_eq_ok.mp h
    cases h
    have hmatches := Bool.of_not_eq_false (not_or.mp hok).1
    refine .inl ⟨overlayId, mode, peers, routes, addresses, hrequest, ?_, rfl⟩
    rw [firstSpecification, hfind]
    exact specification_of_matches hmatches
  · rename_i overlayId hrequest
    obtain ⟨-, h⟩ := Except.ite_error_eq_ok.mp h
    cases h
    exact .inr ⟨overlayId, hrequest, rfl⟩
  all_goals cases h

variable {desired : DesiredState} {t t' : Transition} {operations : List GrantedEnvelope}

theorem transition_collects
    (h : operations.foldlM (transitionStep pk desired) t = .ok t') (id : String) :
    (id ∈ t'.applies ↔ id ∈ t.applies ∨ id ∈ applied operations) ∧
    (id ∈ t'.removals ↔ id ∈ t.removals ∨ id ∈ removed operations) ∧
    (id ∈ applied operations → (firstSpecification pk desired id).isSome) := by
  induction operations generalizing t with
  | nil =>
    cases h
    simp [applied, removed]
  | cons operation operations ih =>
    rw [List.foldlM_cons] at h
    obtain ⟨u, hu, h⟩ := Except.bind_eq_ok.mp h
    obtain ⟨happlies, hremovals, hsome⟩ := ih h
    obtain ⟨overlayId, mode, peers, routes, addresses, hrequest, hspec, rfl⟩ |
      ⟨overlayId, hrequest, rfl⟩ := transitionStep_cases hu
    · have happlied : applied (operation :: operations) = overlayId :: applied operations := by
        simp [applied, hrequest]
      have hremoved : removed (operation :: operations) = removed operations := by
        simp [removed, hrequest]
      rw [happlied, hremoved, happlies, hremovals, Finset.mem_insert, List.mem_cons]
      refine ⟨by rw [or_assoc, or_left_comm], Iff.rfl, fun hid => ?_⟩
      rcases hid with rfl | hid
      · rw [hspec]
        rfl
      · exact hsome hid
    · have happlied : applied (operation :: operations) = applied operations := by
        simp [applied, hrequest]
      have hremoved : removed (operation :: operations) = overlayId :: removed operations := by
        simp [removed, hrequest]
      rw [happlied, hremoved, happlies, hremovals, Finset.mem_insert, List.mem_cons]
      exact ⟨Iff.rfl, by rw [or_assoc, or_left_comm], hsome⟩

theorem execute_get (h : operations.foldlM (transitionStep pk desired) t = .ok t')
    (hdisjoint : ∀ id ∈ applied operations, id ∉ removed operations) (m : Overlays) (id : String) :
    (execute m operations).get id = if id ∈ applied operations then
      firstSpecification pk desired id else if id ∈ removed operations then none else m.get id := by
  induction operations generalizing t m with
  | nil => simp [execute, applied, removed]
  | cons operation operations ih =>
    rw [List.foldlM_cons] at h
    obtain ⟨u, hu, h⟩ := Except.bind_eq_ok.mp h
    have hexecute : execute m (operation :: operations)
        = execute (executeOperation m operation) operations := rfl
    obtain ⟨overlayId, mode, peers, routes, addresses, hrequest, hspec, -⟩ |
      ⟨overlayId, hrequest, -⟩ := transitionStep_cases hu
    · have happlied : applied (operation :: operations) = overlayId :: applied operations := by
        simp [applied, hrequest]
      have hremoved : removed (operation :: operations) = removed operations := by
        simp [removed, hrequest]
      rw [happlied, hremoved] at hdisjoint ⊢
      have hrest := ih h fun id hid => hdisjoint id (List.mem_cons_of_mem _ hid)
      rw [hexecute, hrest, executeOperation, hrequest]
      simp only [OrdMap.get_insert]
      by_cases hid : id = overlayId
      · subst hid
        have hnot := hdisjoint id List.mem_cons_self
        simp [hnot, hspec]
      · simp [hid]
    · have happlied : applied (operation :: operations) = applied operations := by
        simp [applied, hrequest]
      have hremoved : removed (operation :: operations) = overlayId :: removed operations := by
        simp [removed, hrequest]
      rw [happlied, hremoved] at hdisjoint ⊢
      have hrest := ih h fun id hid hmem => hdisjoint id hid (List.mem_cons_of_mem _ hmem)
      rw [hexecute, hrest, executeOperation, hrequest]
      simp only [OrdMap.get_erase]
      by_cases hid : id = overlayId
      · subst hid
        simp
      · simp [hid]

theorem execute_validated {current : List String}
    (h : b.validateTransition pk desired current = .ok ()) {m : Overlays}
    (hkeys : ∀ id, (m.get id).isSome ↔ id ∈ current) (id : String) :
    ((execute m b.operations).get id).isSome = decide (id ∈ desired.overlays.map (·.overlayId)) ∧
    (id ∈ desired.overlays.map (·.overlayId) →
      (execute m b.operations).get id = firstSpecification pk desired id) := by
  obtain ⟨t, ht, h⟩ := Except.bind_eq_ok.mp h
  obtain ⟨heq, -⟩ := Except.ite_error_eq_ok.mp h
  simp only [ne_eq, not_or, not_not] at heq
  have happlied (id : String) :
      id ∈ applied b.operations ↔ id ∈ desired.overlays.map (·.overlayId) := by
    have hcollects := (transition_collects ht id).1
    rw [heq.1, List.mem_toFinset] at hcollects
    simpa using hcollects.symm
  have hremoved (id : String) : id ∈ removed b.operations ↔
      id ∈ current ∧ id ∉ desired.overlays.map (·.overlayId) := by
    have hcollects := (transition_collects ht id).2.1
    rw [heq.2, Finset.mem_sdiff, List.mem_toFinset, List.mem_toFinset] at hcollects
    simpa using hcollects.symm
  have hget := execute_get ht (fun id hid hrem => ((hremoved id).mp hrem).2 ((happlied id).mp hid))
    m id
  by_cases hid : id ∈ desired.overlays.map (·.overlayId)
  · rw [if_pos ((happlied id).mpr hid)] at hget
    have hsome := (transition_collects ht id).2.2 ((happlied id).mpr hid)
    rw [hget]
    exact ⟨by rw [hsome, decide_eq_true hid], fun _ => rfl⟩
  · rw [if_neg fun h => hid ((happlied id).mp h)] at hget
    refine ⟨?_, fun h => absurd h hid⟩
    rw [hget, decide_eq_false hid]
    split_ifs with hrem
    · rfl
    · have hcurrent : id ∉ current := fun h => hrem ((hremoved id).mpr ⟨h, hid⟩)
      rw [← hkeys id, Bool.not_eq_true] at hcurrent
      exact hcurrent

def Unambiguous (pk : AgentPackages) (desired : DesiredState) : Prop :=
  ∀ overlay ∈ desired.overlays, ∀ overlay' ∈ desired.overlays,
    overlay.overlayId = overlay'.overlayId →
      specification pk overlay = specification pk overlay'

theorem firstSpecification_of_unambiguous (h : Unambiguous pk desired)
    (ho : overlay ∈ desired.overlays) :
    firstSpecification pk desired overlay.overlayId = specification pk overlay := by
  rw [firstSpecification]
  cases hfind : desired.overlays.find? (·.overlayId = overlay.overlayId) with
  | none =>
    have hnone := List.find?_eq_none.mp hfind overlay ho
    simp at hnone
  | some first =>
    have hid : first.overlayId = overlay.overlayId := by simpa using List.find?_some hfind
    exact h first (List.mem_of_find?_eq_some hfind) overlay ho hid

/-- The operations of an accepted bundle, carried out in order on the current overlays, realise the
desired state, and the helper computes for each of them what the agent has checked, exactly when
entries of the desired state with the same id ask for the same. -/
theorem accepted_bundle_realises_iff (pk : AgentPackages) (encoded : Bytes)
    (desired : DesiredState) (key : pk.ed.VerifyingKey) (nowUnix : Int64) (current : List String)
    (b : DesiredAuthorizationBundle)
    (hdecode : decodeAndVerify pk encoded desired key nowUnix = .ok b)
    (htransition : b.validateTransition pk desired current = .ok ())
    (m : Overlays) (hkeys : ∀ id, (m.get id).isSome ↔ id ∈ current) :
    (Realises pk (execute m b.operations) desired ∧
      ∀ operation ∈ b.operations, Agrees pk operation) ↔ Unambiguous pk desired := by
  have hafter := execute_validated htransition hkeys
  constructor
  · rintro ⟨hrealises, -⟩ overlay ho overlay' ho' hid
    rw [← (hrealises.values overlay ho).2, hid, (hrealises.values overlay' ho').2]
  · intro hunambiguous
    refine ⟨⟨fun id => ?_, fun overlay ho => ?_⟩, decodeAndVerify_eq_ok hdecode⟩
    · rw [(hafter id).1, decide_eq_true_iff, List.mem_map]
    · have hmem : overlay.overlayId ∈ desired.overlays.map (·.overlayId) :=
        List.mem_map_of_mem ho
      refine ⟨by rw [(hafter _).1, decide_eq_true hmem], ?_⟩
      rw [(hafter _).2 hmem, firstSpecification_of_unambiguous hunambiguous ho]

end Packages

/-! Two desired states and their bundles. -/

def bridgeEntry (route : String) : OverlayState := ⟨"app", [route], [], some false, []⟩

def desiredRevision (revision : UInt64) : DesiredState where
  clusterId := "c"
  clusterEpoch := 1
  revision := revision
  overlays := if revision = 1 then [bridgeEntry "10.42.0.0/24"]
    else [bridgeEntry "10.42.0.0/24", bridgeEntry "10.43.0.0/24"]
  signature := []
  leaseExpiresUnix := 100

def encodedEntry (last : UInt8) : Bytes :=
  [0x22, 0x15, 0x0a, 3] ++ utf8 "app" ++ [0x12, 12] ++ utf8 "10.4" ++ [last] ++ utf8 ".0.0/24"
    ++ [0x20, 0]

def encodedRevision (revision : UInt64) : Bytes :=
  [0x0a, 1, 0x63, 0x10, 1, 0x18, revision.toUInt8]
    ++ (if revision = 1 then encodedEntry 0x32 else encodedEntry 0x32 ++ encodedEntry 0x33)
    ++ [0x30, 100]

def bridgeOperation (revision : UInt64) : GrantedEnvelope where
  handshake := ⟨"enforce", some (.fill 32 7), "b"⟩
  envelope := ⟨"c", "n", 1, revision, 100, bridgeRequest, ""⟩
  resourceUuid := bridgeClaims.resource.resourceUuid
  resourceGeneration := 1
  grant := ⟨{ bridgeClaims with parameterDigest := ⟨toBe 32 0xe828c81f2de4f47b8eeb229f581704185901fa1a1acc7bade6d3be2787c845a1,
    by simp⟩ }, ""⟩

def bundleRevision (revision : UInt64) (signature : String) : DesiredAuthorizationBundle where
  schemaVersion := 1
  clusterId := "c"
  nodeId := "n"
  clusterEpoch := 1
  revision := revision
  leaseExpiresUnix := 100
  desiredStateDigest := ⟨toBe 32 (if revision = 1 then
      0x391805f20c2aeef4564170e109809944f633e3c3d40c43a7bba15e90f50507c9
    else 0x808b420950d321cb49bf0a2abccb7c80a38b0b00ca3c18fd5afe951cdf2a210c), by simp⟩
  operations := [bridgeOperation revision]
  signature := signature

def DesiredAuthorizationBundle.json (b : DesiredAuthorizationBundle) : JsonWriter := jsonRecord
  [("schema_version", jsonNat b.schemaVersion.toNat), ("cluster_id", jsonText b.clusterId),
    ("node_id", jsonText b.nodeId), ("cluster_epoch", jsonNat b.clusterEpoch.toNat),
    ("revision", jsonNat b.revision.toNat),
    ("lease_expires_unix", (utf8 (toString b.leaseExpiresUnix.toInt) ++ ·)),
    ("desired_state_digest", jsonBytes b.desiredStateDigest.val),
    ("operations", jsonList (b.operations.map (·.json))), ("signature", jsonText b.signature)]

def bundleText (b : DesiredAuthorizationBundle) : Bytes := b.json []

def bundleSignature (revision : UInt64) : String × FixedBytes 64 :=
  if revision = 1 then
    ("R5K1a1IKjiJEeSDfr5mmtVs8Em53HcH33PcZFm9RZYg+cbctOJ9RDQMIBJ6gC9v0KUUQwteOanrEOKLvttR/Bw==",
      ⟨toBe 32 0x4792b56b520a8e22447920dfaf99a6b55b3c126e771dc1f7dcf719166f516588
        ++ toBe 32 0x3e71b72d389f510d0308049ea00bdbf4294510c2d78e6a7ac438a2efb6d47f07, by simp⟩)
  else
    ("A5/F8G3XVIXAGKLSCE7gUGX7VXKL62+jD76ylfJltFA1+JDAY/p1thzSMi82EFawSfGC2TMVVGk+O5WicRMEBg==",
      ⟨toBe 32 0x039fc5f06dd75485c018a2d2084ee05065fb55728beb6fa30fbeb295f265b450
        ++ toBe 32 0x35f890c063fa75b61cd2322f361056b049f182d9331554693e3b95a271130406, by simp⟩)

def controllerKey : FixedBytes 32 :=
  .ofNat 32 0xd75a980182b10ab7d54bfed3c964073a0ee172f3daa62325af021a68f707511a

def signedBundle (revision : UInt64) : DesiredAuthorizationBundle :=
  bundleRevision revision (bundleSignature revision).1

def bundlePackages (revision : UInt64) : AgentPackages :=
  { boundPackages with
    ed := .recorded controllerKey
      [(bundleText (bundleRevision revision ""), (bundleSignature revision).2)]
    base64Decode s :=
      if s = (bundleSignature revision).1 then some (bundleSignature revision).2.val else none
    readBundle bytes :=
      if bytes = bundleText (signedBundle revision) then some (signedBundle revision) else none
    bundleJson b := some (bundleText b)
    encodeToVec _ := encodedRevision revision }

variable {b : DesiredAuthorizationBundle}

theorem verifySignature_of_verify {pk : AgentPackages}
    {key : pk.ed.VerifyingKey} {signature : FixedBytes 64} {message : Bytes}
    (hbase64 : pk.base64Decode b.signature = some signature.val)
    (hjson : pk.bundleJson { b with signature := "" } = some message)
    (hverify : pk.ed.verify key message signature = true) : b.verifySignature pk key = .ok () := by
  unfold verifySignature
  rw [hbase64, hjson]
  exact (dif_pos signature.length_eq).trans (if_pos hverify)

theorem decodeAndVerify_of_read {pk : AgentPackages}
    {encoded : Bytes} {desired : DesiredState} {key : pk.ed.VerifyingKey} {nowUnix : Int64}
    (hread : pk.readBundle encoded = some b) (hversion : b.schemaVersion = 1)
    (hcluster : b.clusterId = desired.clusterId) (hepoch : b.clusterEpoch = desired.clusterEpoch)
    (hrevision : b.revision = desired.revision)
    (hlease : b.leaseExpiresUnix = desired.leaseExpiresUnix) (hlive : ¬ b.leaseExpiresUnix ≤ nowUnix)
    (hdigest : b.desiredStateDigest = pk.sha256 (pk.encodeToVec desired))
    (hsignature : b.verifySignature pk key = .ok ())
    (hbindings : b.validateEnvelopeBindings pk = .ok ()) :
    decodeAndVerify pk encoded desired key nowUnix = .ok b := by
  unfold decodeAndVerify
  rw [hread]
  simp only
  rw [if_neg, hsignature, hbindings]
  · rfl
  · simp only [not_or, not_not, ne_eq]
    exact ⟨hversion, hcluster, hepoch, hrevision, hlease, hlive, hdigest⟩

theorem decodeAndVerify_signedBundle {revision : UInt64}
    (hdigest : (signedBundle revision).desiredStateDigest = Sha256.sha256 (encodedRevision revision))
    (hbindings : (signedBundle revision).validateEnvelopeBindings (bundlePackages revision) = .ok ()) :
    decodeAndVerify (bundlePackages revision) (bundleText (signedBundle revision))
      (desiredRevision revision) controllerKey 0 = .ok (signedBundle revision) := by
  have hread : (bundlePackages revision).readBundle (bundleText (signedBundle revision))
      = some (signedBundle revision) := by simp [bundlePackages]
  have hbase64 : (bundlePackages revision).base64Decode (signedBundle revision).signature
      = some (bundleSignature revision).2.val := by
    simp [bundlePackages, signedBundle, bundleRevision]
  have hverify : (bundlePackages revision).ed.verify controllerKey
      (bundleText (bundleRevision revision "")) (bundleSignature revision).2 = true := by
    simp [bundlePackages, Witness.Ed25519.recorded]
  have hlive : ¬ (100 : Int64) ≤ 0 := by decide
  exact decodeAndVerify_of_read hread rfl rfl rfl rfl rfl hlive hdigest
    (verifySignature_of_verify hbase64 rfl hverify) hbindings

theorem bridge_bundle_realises :
    decodeAndVerify (bundlePackages 1) (bundleText (signedBundle 1)) (desiredRevision 1)
      controllerKey 0 = .ok (signedBundle 1) ∧
    (signedBundle 1).validateTransition (bundlePackages 1) (desiredRevision 1) [] = .ok () ∧
    Realises (bundlePackages 1) (execute .empty (signedBundle 1).operations) (desiredRevision 1) := by
  have hdecode : decodeAndVerify (bundlePackages 1) (bundleText (signedBundle 1))
      (desiredRevision 1) controllerKey 0 = .ok (signedBundle 1) :=
    decodeAndVerify_signedBundle (by decide +kernel) (by decide +kernel)
  have htransition : (signedBundle 1).validateTransition (bundlePackages 1) (desiredRevision 1) []
      = .ok () := by decide +kernel
  refine ⟨hdecode, htransition, ?_⟩
  refine ((accepted_bundle_realises_iff _ _ _ _ _ [] _ hdecode htransition .empty ?_).mpr ?_).1
  · simp
  · intro overlay ho overlay' ho' hid
    obtain rfl : overlay = bridgeEntry "10.42.0.0/24" := by simpa [desiredRevision] using ho
    obtain rfl : overlay' = bridgeEntry "10.42.0.0/24" := by simpa [desiredRevision] using ho'
    rfl

/-- Two entries for one overlay: the bundle is accepted, and the second entry is not realised. -/
theorem second_entry_not_realised :
    decodeAndVerify (bundlePackages 2) (bundleText (signedBundle 2)) (desiredRevision 2)
      controllerKey 0 = .ok (signedBundle 2) ∧
    (signedBundle 2).validateTransition (bundlePackages 2) (desiredRevision 2) [] = .ok () ∧
    ¬ Realises (bundlePackages 2) (execute .empty (signedBundle 2).operations)
      (desiredRevision 2) := by
  refine ⟨decodeAndVerify_signedBundle (by decide +kernel) (by decide +kernel), by decide +kernel,
    fun h => ?_⟩
  have hvalue := (h.values (bridgeEntry "10.43.0.0/24") (by simp [desiredRevision])).2
  exact absurd hvalue (by decide +kernel)

end Ferrocrate.Agent
