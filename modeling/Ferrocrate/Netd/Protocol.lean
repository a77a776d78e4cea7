import Ferrocrate.Authorization.HelperGrant
import Ferrocrate.Lib.Framing
import Ferrocrate.Witness.Checkpoint

/-! The wire protocol of the network helper (`protocol.rs`, the messages of `legacy_desired.rs`)
and the packages that read and write it. -/
namespace Ferrocrate.Netd
open Lib
open Authorization (HelperGrant GrantAction GrantKind)
open Witness (Digest Ed25519 Hasher)

def maxFrameBytes : Nat := 1024 * 1024
def maxPeers : Nat := 255
def maxRoutes : Nat := 512

inductive OverlayMode where
  | wireGuard | bridgeOnly
deriving DecidableEq

def OverlayMode.asStr : OverlayMode → String
  | .wireGuard => "wireguard"
  | .bridgeOnly => "bridge_only"

structure PeerSpec where
  nodeId : String
  publicKey : String
  endpoint : String
  allowedIps : List String
deriving DecidableEq

inductive NetdRequest where
  | applyOverlay (overlayId : String) (mode : OverlayMode) (peers : List PeerSpec)
      (routes addresses : List String)
  | removeOverlay (overlayId : String)
  | attachEndpoint (overlayId endpointId : String) (netns : Option String)
  | detachEndpoint (overlayId endpointId : String)
  | inspect (overlayId : String)
deriving DecidableEq

def NetdRequest.overlayId : NetdRequest → String
  | .applyOverlay overlayId _ _ _ _ => overlayId
  | .removeOverlay overlayId => overlayId
  | .attachEndpoint overlayId _ _ => overlayId
  | .detachEndpoint overlayId _ => overlayId
  | .inspect overlayId => overlayId

structure ServiceHandshake where
  mode : String
  policyDigest : Option Digest
  instanceBoot : String
deriving DecidableEq

structure SignedEnvelope where
  clusterId : String
  nodeId : String
  epoch : UInt64
  revision : UInt64
  leaseExpiresUnixSecs : UInt64
  request : NetdRequest
  signature : String
deriving DecidableEq

structure DesiredStateEnvelope where
  handshake : ServiceHandshake
  clusterId : String
  nodeId : String
  epoch : UInt64
  revision : UInt64
  leaseExpiresUnixSecs : UInt64
  desiredState : Bytes
  signature : String
deriving DecidableEq

structure GrantedEnvelope where
  handshake : ServiceHandshake
  envelope : SignedEnvelope
  resourceUuid : String
  resourceGeneration : UInt64
  grant : HelperGrant
deriving DecidableEq

/-! The desired state inside its envelope. -/

structure DesiredPeer where
  nodeId : String
  publicKey : Bytes
  endpoint : String
  allowedIps : List String

structure OverlayState where
  overlayId : String
  routes : List String
  peers : List DesiredPeer
  wireguard : Option Bool
  addresses : List String

structure DesiredState where
  clusterId : String
  clusterEpoch : UInt64
  revision : UInt64
  overlays : List OverlayState
  signature : Bytes
  leaseExpiresUnix : Int64

inductive RejectionCode where
  | unauthorizedPeer | oversizedFrame | invalidFrame | invalidSignature | missingGrant
  | invalidGrant | grantReplay | expiredLease | staleRevision | policyViolation | busy
deriving DecidableEq

inductive NetdResponse where
  | applied
  | removed
  | attached
  | detached
  | snapshot (overlayId : String) (revision : UInt64)
  | rejected (code : RejectionCode) (reason : String)
deriving DecidableEq

def reject (code : RejectionCode) (reason : String) : NetdResponse := .rejected code reason

def NetdResponse.acknowledges : NetdResponse → Bool
  | .applied | .removed | .attached | .detached => true
  | .snapshot _ _ | .rejected _ _ => false

/-- The packages the server is built on, and the Unicode tables: signatures and hashes, base64,
address syntax, and the readers and writers of JSON and protocol buffers. -/
structure Packages where
  ed : Ed25519
  sha256 : Hasher
  isAlphanumeric : Char → Bool
  base64Decode : String → Option Bytes
  base64Encode : Bytes → String
  isIpNet : String → Bool
  isSocketAddr : String → Bool
  /-- The bytes are a bulk desired state with a grant. -/
  readsGrantedDesired : Bytes → Bool
  readDesired : Bytes → Option DesiredStateEnvelope
  readGranted : Bytes → Option GrantedEnvelope
  readSigned : Bytes → Option SignedEnvelope
  decodeDesired : Bytes → Option DesiredState
  desiredJson : DesiredStateEnvelope → Option Bytes
  signedJson : SignedEnvelope → Option Bytes
  stringJson : String → Option Bytes
  optionJson : Option String → Option Bytes
  stringsJson : List String → Option String
  peersJson : List PeerSpec → Option String
  peerKeysJson : List (String × String × List String) → Option Bytes

/-! What `serde_json` writes before the rest of a text, for texts that need no escapes. -/

abbrev JsonWriter := Bytes → Bytes

def jsonText (text : String) : JsonWriter := fun rest => 0x22 :: (utf8 text ++ 0x22 :: rest)

def jsonNat (n : Nat) : JsonWriter :=
  fun rest => (Nat.toDigits 10 n).map (fun c => UInt8.ofNat c.toNat) ++ rest

def jsonNull : JsonWriter := fun rest => utf8 "null" ++ rest

def jsonItems : List JsonWriter → JsonWriter
  | [], rest => rest
  | [item], rest => item rest
  | item :: items, rest => item (0x2c :: jsonItems items rest)

def jsonList (items : List JsonWriter) : JsonWriter :=
  fun rest => 0x5b :: jsonItems items (0x5d :: rest)

def jsonRecord (fields : List (String × JsonWriter)) : JsonWriter :=
  fun rest => 0x7b :: jsonItems (fields.map fun field rest =>
    jsonText field.1 (0x3a :: field.2 rest)) (0x7d :: rest)

def jsonBytes (bytes : Bytes) : JsonWriter := jsonList (bytes.map fun b => jsonNat b.toNat)

def NetdRequest.json : NetdRequest → JsonWriter
  | .applyOverlay overlayId mode peers routes addresses => jsonRecord [("ApplyOverlay", jsonRecord
      [("overlay_id", jsonText overlayId),
        ("mode", jsonText (match mode with
          | .wireGuard => "wire_guard"
          | .bridgeOnly => "bridge_only")),
        ("peers", jsonList (peers.map fun peer => jsonRecord [("node_id", jsonText peer.nodeId),
          ("public_key", jsonText peer.publicKey), ("endpoint", jsonText peer.endpoint),
          ("allowed_ips", jsonList (peer.allowedIps.map jsonText))])),
        ("routes", jsonList (routes.map jsonText)),
        ("addresses", jsonList (addresses.map jsonText))])]
  | .removeOverlay overlayId => jsonRecord [("RemoveOverlay",
      jsonRecord [("overlay_id", jsonText overlayId)])]
  | .attachEndpoint overlayId endpointId netns => jsonRecord [("AttachEndpoint",
      jsonRecord [("overlay_id", jsonText overlayId), ("endpoint_id", jsonText endpointId),
        ("netns", (netns.map jsonText).getD jsonNull)])]
  | .detachEndpoint overlayId endpointId => jsonRecord [("DetachEndpoint",
      jsonRecord [("overlay_id", jsonText overlayId), ("endpoint_id", jsonText endpointId)])]
  | .inspect overlayId => jsonRecord [("Inspect", jsonRecord [("overlay_id", jsonText overlayId)])]

def SignedEnvelope.json (e : SignedEnvelope) : JsonWriter := jsonRecord
  [("cluster_id", jsonText e.clusterId), ("node_id", jsonText e.nodeId),
    ("epoch", jsonNat e.epoch.toNat), ("revision", jsonNat e.revision.toNat),
    ("lease_expires_unix_secs", jsonNat e.leaseExpiresUnixSecs.toNat),
    ("request", e.request.json), ("signature", jsonText e.signature)]

def grantActionJson : GrantAction → JsonWriter
  | .networkCreate => jsonText "network-create"
  | .networkDelete => jsonText "network-delete"
  | .networkAttach => jsonText "network-attach"
  | .networkDetach => jsonText "network-detach"
  | .networkInspect => jsonText "network-inspect"

def grantKindJson : GrantKind → JsonWriter
  | .mutation => jsonText "mutation"
  | .cleanup => jsonText "cleanup"

def digestJson (digest : Option Witness.Digest) : JsonWriter :=
  (digest.map fun digest => jsonBytes digest.val).getD jsonNull

def ServiceHandshake.json (h : ServiceHandshake) : JsonWriter := jsonRecord
  [("mode", jsonText h.mode), ("policy_digest", digestJson h.policyDigest),
    ("instance_boot", jsonText h.instanceBoot)]

def DesiredStateEnvelope.json (e : DesiredStateEnvelope) : JsonWriter := jsonRecord
  [("handshake", e.handshake.json), ("cluster_id", jsonText e.clusterId),
    ("node_id", jsonText e.nodeId), ("epoch", jsonNat e.epoch.toNat),
    ("revision", jsonNat e.revision.toNat),
    ("lease_expires_unix_secs", jsonNat e.leaseExpiresUnixSecs.toNat),
    ("desired_state", jsonBytes e.desiredState), ("signature", jsonText e.signature)]

def grantJson (g : HelperGrant) : JsonWriter := jsonRecord [("claims", jsonRecord
  [("schema_version", jsonNat g.claims.schemaVersion.toNat),
    ("request_id", jsonText g.claims.requestId),
    ("action", grantActionJson g.claims.action),
    ("resource", jsonRecord [("resource_uuid", jsonText g.claims.resource.resourceUuid),
      ("generation", jsonNat g.claims.resource.generation.toNat)]),
    ("parameter_digest", jsonBytes g.claims.parameterDigest.val),
    ("boot_id", jsonText g.claims.bootId),
    ("wall_deadline_secs", jsonNat g.claims.wallDeadlineSecs.toNat),
    ("monotonic_deadline_millis", jsonNat g.claims.monotonicDeadlineMillis.toNat),
    ("nonce", jsonBytes g.claims.nonce.val), ("operation_id", jsonBytes g.claims.operationId.val),
    ("request_digest", jsonBytes g.claims.requestDigest.val),
    ("precondition_digest", jsonBytes g.claims.preconditionDigest.val),
    ("recovery_recipe_digest", jsonBytes g.claims.recoveryRecipeDigest.val),
    ("issuer", jsonText g.claims.issuer), ("key_id", jsonText g.claims.keyId),
    ("kind", grantKindJson g.claims.kind),
    ("origin_request_id", (g.claims.originRequestId.map jsonText).getD jsonNull),
    ("live_identity_digest", digestJson g.claims.liveIdentityDigest)]),
  ("signature", jsonText g.signature)]

def GrantedEnvelope.json (e : GrantedEnvelope) : JsonWriter := jsonRecord
  [("handshake", e.handshake.json), ("envelope", e.envelope.json), ("resource_uuid", jsonText e.resourceUuid),
    ("resource_generation", jsonNat e.resourceGeneration.toNat), ("grant", grantJson e.grant)]

end Ferrocrate.Netd
