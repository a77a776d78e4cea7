import Ferrocrate.Lib.OrdMap
import Ferrocrate.Witness.Record

/-! What a privileged helper service asks of its callers (`authorization.rs`,
`authorization/helper_grant.rs`): the mode both sides pinned, and single-use grants bound to an
action and its parameters. -/
namespace Ferrocrate.Authorization
open Lib
open Witness (Digest Id)

inductive AuthorizationMode where
  | disabled | shadow | enforce
deriving DecidableEq

structure AuthorizationServiceMode where
  mode : AuthorizationMode
  policyDigest : Digest
deriving DecidableEq

inductive AuthorizationServiceModeError where
  | invalidMode | missingPolicyDigest | unexpectedPolicyDigest | configurationMismatch

namespace AuthorizationServiceMode

def new (mode : AuthorizationMode) (policyDigest : Option Digest) :
    Except AuthorizationServiceModeError AuthorizationServiceMode :=
  match mode, policyDigest with
  | .disabled, none => .ok ⟨mode, .zero 32⟩
  | .disabled, some _ => .error .unexpectedPolicyDigest
  | _, some digest =>
    if digest ≠ .zero 32 then .ok ⟨mode, digest⟩ else .error .missingPolicyDigest
  | _, none => .error .missingPolicyDigest

def parse (mode : String) (policyDigest : Option Digest) :
    Except AuthorizationServiceModeError AuthorizationServiceMode :=
  if mode = "enforce" then new .enforce policyDigest
  else if mode = "shadow" then new .shadow policyDigest
  else if mode = "disabled" then new .disabled policyDigest
  else .error .invalidMode

def requireMatch (self peer : AuthorizationServiceMode) :
    Except AuthorizationServiceModeError Unit :=
  if self = peer then .ok () else .error .configurationMismatch

end AuthorizationServiceMode

inductive GrantAction where
  | networkCreate | networkDelete | networkAttach | networkDetach | networkInspect
deriving DecidableEq

inductive GrantKind where
  | mutation | cleanup
deriving DecidableEq

structure ResourceBinding where
  resourceUuid : String
  generation : UInt64
deriving DecidableEq

structure FdBinding where
  position : UInt16
  device : UInt64
  inode : UInt64

structure GrantParameters where
  operation : String
  fields : List (String × String)
  fds : List FdBinding

inductive GrantBuildError where
  | invalidParameters

def FieldLe (a b : String × String) : Prop := a.1 < b.1 ∨ (a.1 = b.1 ∧ a.2 ≤ b.2)

instance : DecidableRel FieldLe := fun _ _ => inferInstanceAs (Decidable (_ ∨ _))

def repeatsKey (fields : List (String × String)) : Bool :=
  (fields.zip (fields.drop 1)).any fun v => v.1.1 = v.2.1

def GrantParameters.new (operation : String) (fields : List (String × String))
    (fds : List FdBinding) : Except GrantBuildError GrantParameters :=
  if operation.isEmpty ∨ operation.utf8ByteSize > 64 ∨ fields.length > 128 ∨ fds ≠ [] then
    .error .invalidParameters
  else
    let sorted := fields.insertionSort FieldLe
    if repeatsKey sorted ∨ sorted.any (fun f => f.1.isEmpty || decide (f.1.utf8ByteSize > 64)
        || decide (f.2.utf8ByteSize > 4096)) then .error .invalidParameters
    else .ok ⟨operation, sorted, []⟩

structure GrantClaims where
  schemaVersion : UInt16
  requestId : String
  action : GrantAction
  resource : ResourceBinding
  parameterDigest : Digest
  bootId : String
  wallDeadlineSecs : UInt64
  monotonicDeadlineMillis : UInt64
  nonce : Id
  operationId : Id
  requestDigest : Digest
  preconditionDigest : Digest
  recoveryRecipeDigest : Digest
  issuer : String
  keyId : String
  kind : GrantKind
  originRequestId : Option String
  liveIdentityDigest : Option Digest
deriving DecidableEq

structure HelperGrant where
  claims : GrantClaims
  signature : String
deriving DecidableEq

end Ferrocrate.Authorization
