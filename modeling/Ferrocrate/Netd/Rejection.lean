import Ferrocrate.Lib.Sha256
import Ferrocrate.Netd.Run

/-! What a refused frame leaves behind: the floors are raised before the last checks, and a
rollback takes the floor of a scope away instead of giving the earlier one back. -/
namespace Ferrocrate.Netd
open Lib
open Lib.Program
open Authorization
variable {κ γ ε : Type} {sv : Services κ γ}

inductive FrameContent where
  | bulk
  | desired (envelope : DesiredStateEnvelope)
  | granted (envelope : GrantedEnvelope)
  | ungranted (envelope : SignedEnvelope)
  | unreadable
deriving DecidableEq

def Packages.frameContent (pk : Packages) (bytes : Bytes) : FrameContent :=
  if pk.readsGrantedDesired bytes then .bulk
  else match pk.readDesired bytes with
    | some envelope => .desired envelope
    | none => match pk.readGranted bytes with
      | some envelope => .granted envelope
      | none => match pk.readSigned bytes with
        | some envelope => .ungranted envelope
        | none => .unreadable

def ReachesPolicy (h : Host sv) : FrameContent → Prop
  | .desired envelope => (checkDesiredIdentity sv envelope).result h = .ok ()
  | .granted envelope =>
    validateGrantedHandshake h.server.authorizationIdentity envelope.handshake = true
  | .ungranted _ => True
  | .bulk | .unreadable => False

def PolicyTakes (h : Host sv) (now : UInt64) : FrameContent → Prop
  | .desired envelope => (h.server.policy.validateDesired envelope now).isOk
  | .granted envelope => (h.server.policy.validate envelope.envelope now).isOk
  | .ungranted envelope => (h.server.policy.validate envelope now).isOk
  | .bulk | .unreadable => False

/-- A later refusal finds the floors as they were: the scope had no floor, and the refusal is one
of those that roll back. -/
def RollsBackToNone (h : Host sv) : FrameContent → Prop
  | .desired _ => h.floors.get desiredScope = none
  | .granted envelope => (requestParameters sv.pk envelope.envelope.request).isOk ∧
      h.floors.get envelope.envelope.request.overlayId = none
  | .ungranted _ | .bulk | .unreadable => False

def Shows (policy : Policy sv.pk) (owned : Ownership) (h : Host sv) : Prop :=
  h.server.policy = policy ∧ h.owned = owned

section Shows
variable {policy : Policy sv.pk} {owned : Ownership} {E : ε → Host sv → Prop}

theorem keeps_shows_persist : Keeps (Shows policy owned) E (persist : Program ε (Host sv) Bool) :=
  keeps_persist (fun _ _ h => h) (fun _ h => h) fun _ h => h

theorem wp_rollback_shows {h : Host sv} (hs : Shows policy owned h) (scope : String)
    (epoch revision : UInt64) :
    wp (rollback scope epoch revision : Program ε (Host sv) Unit)
      (fun _ => Shows (policy.rollback scope epoch revision) owned) E h := by
  obtain ⟨rfl, rfl⟩ := hs
  exact ⟨rfl, rfl⟩

end Shows

def refusedPolicy (policy : Policy sv.pk) (envelope : SignedEnvelope) : Policy sv.pk :=
  if (requestParameters sv.pk envelope.request).isOk then
    policy.rollback envelope.request.overlayId envelope.epoch envelope.revision
  else policy

variable {Q : Unit → Host sv → Prop}

theorem wp_rollbackAndRefuse {policy : Policy sv.pk} {owned : Ownership} {h : Host sv}
    (hs : Shows policy owned h) (envelope : SignedEnvelope) (code : RejectionCode)
    (reason : String) :
    wp (rollbackAndRefuse sv envelope code reason) Q
      (fun _ => Shows (policy.rollback envelope.request.overlayId envelope.epoch
        envelope.revision) owned) h := by
  rw [rollbackAndRefuse, wp_bind]
  exact wp_mono (wp_rollback_shows hs _ _ _) (fun _ _ h => h) fun _ _ h => h

theorem wp_spendGrant {policy : Policy sv.pk} {owned : Ownership} (h : Host sv)
    (hs : Shows policy owned h) (granted : GrantedEnvelope) (now : UInt64) :
    wp (spendGrant sv granted now) (fun _ _ => True)
      (fun _ => Shows (refusedPolicy policy granted.envelope) owned) h := by
  rw [spendGrant, wp_bind, wp_ofExcept]
  refine ⟨fun bound hbound => ?_, fun e he => ?_⟩
  · have hrefused : refusedPolicy policy granted.envelope
        = policy.rollback granted.envelope.request.overlayId granted.envelope.epoch
          granted.envelope.revision := by
      rw [refusedPolicy, hbound]
      rfl
    rw [hrefused, wp_bind, wp_get, wp_bind, wp_runIf]
    refine ⟨fun _ => wp_rollbackAndRefuse hs _ _ _, fun _ => ?_⟩
    refine wp_bind_of_keeps (keeps_consumeGrant (fun _ h => h) _ _ _ _ _ _ _) hs
      fun consumed h hs => ?_
    rw [wp_bind]
    cases consumed with
    | error code => exact wp_rollbackAndRefuse hs _ _ _
    | ok _ =>
      refine (wp_bind _ _ _ _ _).mpr ((wp_whenFails _ _ _ _ _).mpr ?_)
      refine wp_mono (keeps_shows_persist h hs) (fun ok h hs => ?_) fun _ _ he => he
      refine ⟨fun _ => trivial, fun _ => ?_⟩
      rw [wp_bind]
      refine wp_mono (wp_rollback_shows hs _ _ _) (fun _ h hs => ?_) fun _ _ he => he
      rw [wp_bind]
      exact wp_mono (keeps_withVerifier (fun _ h => h) _ _ h hs) (fun _ _ h => h) fun _ _ he => he
  · have hrefused : refusedPolicy policy granted.envelope = policy := by
      rw [refusedPolicy, he]
      rfl
    rw [hrefused]
    exact hs

/-- The floors are left alone, or the refusal finds them as they were. -/
def LeavesFloors (h : Host sv) (now : UInt64) (content : FrameContent) : Prop :=
  ReachesPolicy h content → PolicyTakes h now content → RollsBackToNone h content

def Refused (h : Host sv) (leaves : Prop) (h' : Host sv) : Prop :=
  .applyLegacyDesired ∈ h'.calls ∨ (h'.owned = h.owned ∧ (h'.floors = h.floors ↔ leaves))

theorem refused_of_shows {h h' : Host sv} {leaves : Prop} (hs : Shows h.server.policy h.owned h')
    (hl : leaves) : Refused h leaves h' :=
  .inr ⟨hs.2, iff_of_true (congrArg Policy.revisions hs.1) hl⟩

theorem readOnly_validateFrame (uid : UInt32) (frame : Bytes) :
    ReadOnly (validateFrame sv uid frame) := by
  refine readOnly_of_preserves fun s => ?_
  refine Preserves.bind (fun _ h => h) fun h => (preserves_rejectIf _ _).bind fun _ => ?_
  exact (preserves_rejectIf _ _).bind fun _ => preserves_rejectIf _ _

theorem readOnly_checkDesiredIdentity (desired : DesiredStateEnvelope) :
    ReadOnly (checkDesiredIdentity sv desired) := by
  refine readOnly_of_preserves fun s => ?_
  refine Preserves.bind (fun _ h => h) fun h => Preserves.bind ?_ fun pinned =>
    preserves_rejectIf _ _
  intro t ht
  exact (wp_okOr _ _ _ _ _).mpr ⟨fun _ _ => ht, fun _ => ht⟩

theorem wp_applyLegacyDesired_calls (desired : DesiredStateEnvelope) (h : Host sv) :
    wp (applyLegacyDesired sv desired) (fun _ h' => .applyLegacyDesired ∈ h'.calls)
      (fun _ h' => .applyLegacyDesired ∈ h'.calls) h :=
  (stable_mem_calls .applyLegacyDesired).applyDesired desired _ List.mem_cons_self

theorem wp_answerDesired_calls (desired : DesiredStateEnvelope)
    (answer : Except RejectionCode NetdResponse) {h : Host sv}
    (hc : .applyLegacyDesired ∈ h.calls) :
    wp (answerDesired sv desired answer) Q (fun _ h' => .applyLegacyDesired ∈ h'.calls) h := by
  cases answer with
  | ok response => exact hc
  | error code => exact List.mem_cons_of_mem _ hc

variable {bytes : Bytes}

theorem wp_tryLegacyFrame_desired {desired : DesiredStateEnvelope} (now : UInt64)
    (h : Host sv) (hbulk : sv.pk.readsGrantedDesired bytes = false)
    (hread : sv.pk.readDesired bytes = some desired) :
    wp (tryLegacyFrame sv bytes now) (fun _ _ => False)
      (fun _ => Refused h (LeavesFloors h now (.desired desired))) h := by
  rw [tryLegacyFrame, wp_bind, wp_rejectIf, hread]
  refine ⟨fun h => absurd h (by simp [hbulk]), fun _ => ?_⟩
  refine (wp_bind _ _ _ _ _).mpr ((wp_bind _ _ _ _ _).mpr ?_)
  refine ((readOnly_checkDesiredIdentity desired).wp _ _ h).mpr ⟨fun _ hid => ?_, fun e he => ?_⟩
  · refine (wp_bind _ _ _ _ _).mpr ((wp_bind _ _ _ _ _).mpr ?_)
    rw [wp_ofExcept]
    refine ⟨fun policy hpolicy => ?_, fun e he => ?_⟩
    · obtain ⟨rfl, hpasses⟩ := Policy.validateDesired_eq_ok hpolicy
      refine (wp_bind _ _ _ _ _).mpr ((wp_whenFails _ _ _ _ _).mpr ?_)
      refine wp_mono (keeps_shows_persist (h.withPolicy _) ⟨rfl, rfl⟩) (fun ok h' hs => ?_)
        fun _ _ he => he
      refine ⟨fun _ => ?_, fun _ => ?_⟩
      · refine (wp_bind _ _ _ _ _).mpr ((wp_caught _ _ _ _).mpr ?_)
        refine wp_mono (wp_applyLegacyDesired_calls desired h') (fun _ h'' hc => ?_)
          fun _ h'' hc => ?_
        · exact wp_mono (wp_answerDesired_calls desired _ hc) (fun _ _ hq => hq)
            fun _ _ hc => .inl hc
        · exact wp_mono (wp_answerDesired_calls desired _ hc) (fun _ _ hq => hq)
            fun _ _ hc => .inl hc
      · refine (wp_bind _ _ _ _ _).mpr (wp_mono (wp_rollback_shows hs _ _ _) (fun _ h'' hs => ?_)
          fun _ _ he => he)
        refine .inr ⟨hs.2, ?_⟩
        rw [Host.floors, hs.1]
        refine (Policy.rollback_raised_eq_iff _ _ desired.floor).trans ⟨fun h _ _ => h, fun hl => ?_⟩
        refine hl hid ?_
        show (h.server.policy.validateDesired desired now).isOk
        rw [hpolicy]
        rfl
    · refine refused_of_shows ⟨rfl, rfl⟩ fun _ htakes => ?_
      rw [PolicyTakes, he] at htakes
      cases htakes
  · refine refused_of_shows ⟨rfl, rfl⟩ fun hreach => ?_
    rw [ReachesPolicy, he] at hreach
    cases hreach

theorem wp_granted (granted : GrantedEnvelope) (now : UInt64) (h : Host sv) :
    wp (do
      let h ← get
      rejectIf (validateGrantedHandshake h.server.authorizationIdentity granted.handshake = false)
        (reject .policyViolation "authorization service identity mismatch")
      let policy ← ofExcept (reject · "policy rejected request")
        (h.server.policy.validate granted.envelope now)
      modify fun h => h.withPolicy policy
      spendGrant sv granted now) (fun _ _ => True)
      (fun _ => Refused h (LeavesFloors h now (.granted granted))) h := by
  rw [wp_bind, wp_get, wp_bind, wp_rejectIf]
  refine ⟨fun hmismatch => refused_of_shows ⟨rfl, rfl⟩ fun hreach => ?_, fun hmatch => ?_⟩
  · rw [ReachesPolicy, hmismatch] at hreach
    cases hreach
  rw [wp_bind, wp_ofExcept]
  refine ⟨fun policy hpolicy => ?_, fun e he => refused_of_shows ⟨rfl, rfl⟩ fun _ htakes => ?_⟩
  · obtain ⟨rfl, hpasses⟩ := Policy.validate_eq_ok hpolicy
    have htakes : PolicyTakes h now (.granted granted) := by
      rw [PolicyTakes, hpolicy]
      rfl
    have hreach : ReachesPolicy h (.granted granted) := by
      simpa [ReachesPolicy] using hmatch
    refine wp_mono (wp_spendGrant (h.withPolicy _) ⟨rfl, rfl⟩ granted now) (fun _ _ _ => trivial)
      fun _ h' hs => .inr ⟨hs.2, ?_⟩
    rw [Host.floors, hs.1, refusedPolicy]
    split_ifs with hparams
    · refine (Policy.rollback_raised_eq_iff _ _ granted.envelope.floor).trans ?_
      exact ⟨fun h _ _ => ⟨hparams, h⟩, fun hl => (hl hreach htakes).2⟩
    · exact iff_of_false hpasses.raised_ne fun hl => hparams (hl hreach htakes).1
  · rw [PolicyTakes, he] at htakes
    cases htakes

variable {Q : GrantedEnvelope → Host sv → Prop}

theorem wp_refuseUngranted {envelope : SignedEnvelope}
    (hread : sv.pk.readSigned bytes = some envelope) (now : UInt64) (h : Host sv) :
    wp (refuseUngranted sv bytes now) Q
      (fun _ => Refused h (LeavesFloors h now (.ungranted envelope))) h := by
  rw [refuseUngranted, hread]
  refine (wp_bind _ _ _ _ _).mpr ((wp_bind _ _ _ _ _).mpr ((wp_bind _ _ _ _ _).mpr ?_))
  rw [wp_ofExcept]
  refine ⟨fun policy hpolicy => .inr ⟨rfl, ?_⟩,
    fun e he => refused_of_shows ⟨rfl, rfl⟩ fun _ htakes => ?_⟩
  · obtain ⟨rfl, hpasses⟩ := Policy.validate_eq_ok hpolicy
    refine iff_of_false hpasses.raised_ne fun hl => hl trivial ?_
    rw [PolicyTakes, hpolicy]
    rfl
  · rw [PolicyTakes, he] at htakes
    cases htakes

theorem wp_refuseUngranted_unreadable (hread : sv.pk.readSigned bytes = none)
    (now : UInt64) (h : Host sv) :
    wp (refuseUngranted sv bytes now) Q
      (fun _ => Refused h (LeavesFloors h now .unreadable)) h := by
  rw [refuseUngranted, hread]
  exact refused_of_shows ⟨rfl, rfl⟩ fun hreach => hreach.elim

theorem wp_prepareDispatch_content (bytes : Bytes) (now : UInt64) (h : Host sv) :
    wp (do
      tryLegacyFrame sv bytes now
      let granted ← readGranted sv bytes now
      let h ← get
      rejectIf (validateGrantedHandshake h.server.authorizationIdentity granted.handshake = false)
        (reject .policyViolation "authorization service identity mismatch")
      let policy ← ofExcept (reject · "policy rejected request")
        (h.server.policy.validate granted.envelope now)
      modify fun h => h.withPolicy policy
      spendGrant sv granted now) (fun _ _ => True)
      (fun _ => Refused h (LeavesFloors h now (sv.pk.frameContent bytes))) h := by
  rw [wp_bind]
  by_cases hbulk : sv.pk.readsGrantedDesired bytes = true
  · have hcontent : sv.pk.frameContent bytes = .bulk := by
      rw [Packages.frameContent, if_pos hbulk]
    rw [hcontent, tryLegacyFrame, wp_bind, wp_rejectIf]
    exact ⟨fun _ => refused_of_shows ⟨rfl, rfl⟩ fun hreach => hreach.elim,
      fun hnot => absurd hbulk hnot⟩
  cases hdesired : sv.pk.readDesired bytes with
  | some desired =>
    have hcontent : sv.pk.frameContent bytes = .desired desired := by
      rw [Packages.frameContent, if_neg hbulk, hdesired]
    rw [hcontent]
    exact wp_mono (wp_tryLegacyFrame_desired now h (Bool.eq_false_of_not_eq_true hbulk) hdesired)
      (fun _ _ hfalse => hfalse.elim) fun _ _ he => he
  | none =>
    rw [tryLegacyFrame, wp_bind, wp_rejectIf, hdesired]
    refine ⟨fun h => absurd h hbulk, fun _ => ?_⟩
    show wp (readGranted sv bytes now >>= _) _ _ h
    rw [wp_bind, readGranted]
    cases hgranted : sv.pk.readGranted bytes with
    | some granted =>
      have hcontent : sv.pk.frameContent bytes = .granted granted := by
        rw [Packages.frameContent, if_neg hbulk, hdesired]
        simp only [hgranted]
      rw [hcontent]
      exact wp_granted granted now h
    | none =>
      cases hsigned : sv.pk.readSigned bytes with
      | some envelope =>
        have hcontent : sv.pk.frameContent bytes = .ungranted envelope := by
          rw [Packages.frameContent, if_neg hbulk, hdesired]
          simp only [hgranted, hsigned]
        rw [hcontent]
        exact wp_refuseUngranted hsigned now h
      | none =>
        have hcontent : sv.pk.frameContent bytes = .unreadable := by
          rw [Packages.frameContent, if_neg hbulk, hdesired]
          simp only [hgranted, hsigned]
        rw [hcontent]
        exact wp_refuseUngranted_unreadable hsigned now h

/-- A frame that is refused without having come to a desired state leaves what the server owns as
it was. The floors are as they were exactly when the frame is malformed, does not get to the
policy, is not taken by it, or is taken for a scope that had no floor and refused by a check that
rolls back. -/
theorem refused_frame_leaves_floors_iff (h : Host sv) (uid : UInt32) (frame : Bytes)
    (now : UInt64) (response : NetdResponse) (h' : Host sv)
    (hrefused : prepareDispatch sv uid frame now h.idle = (.error response, h'))
    (hnot : .applyLegacyDesired ∉ h'.calls) :
    (h'.floors = h.floors ∧ h'.owned = h.owned) ↔
      ((validateFrame sv uid frame).result h.idle = .ok () →
        LeavesFloors h.idle now (sv.pk.frameContent (frame.drop 4))) := by
  have hwp : wp (prepareDispatch sv uid frame now) (fun _ _ => True)
      (fun _ => Refused h.idle ((validateFrame sv uid frame).result h.idle = .ok () →
        LeavesFloors h.idle now (sv.pk.frameContent (frame.drop 4)))) h.idle := by
    rw [prepareDispatch, wp_bind]
    refine ((readOnly_validateFrame uid frame).wp _ _ _).mpr ⟨fun _ hvalid => ?_, fun e he => ?_⟩
    · refine wp_mono (wp_prepareDispatch_content (frame.drop 4) now h.idle)
        (fun _ _ _ => trivial) fun _ h' hr => ?_
      rwa [show ((validateFrame sv uid frame).result h.idle = .ok () → LeavesFloors h.idle now _)
        = LeavesFloors h.idle now _ from propext ⟨fun hl => hl hvalid, fun hl _ => hl⟩]
    · refine refused_of_shows ⟨rfl, rfl⟩ fun hvalid => ?_
      rw [he] at hvalid
      cases hvalid
  rw [wp, hrefused] at hwp
  obtain hcall | ⟨howned, hfloors⟩ := hwp
  · exact absurd hcall hnot
  · exact (and_iff_left howned).trans hfloors

/-! Three desired states of one cluster, signed, as they come over the wire. -/

def recordedState (revision : UInt64) : DesiredState × Bytes :=
  (⟨"c", 1, revision, [], [], 100⟩,
    [0x0a, 1, 0x63, 0x10, 1, 0x18, UInt8.ofNat revision.toNat, 0x30, 0x64])

def recordedSignature : UInt64 → String × Nat × Nat
  | 1 => ("kxpZpdEE6UKMUS7dO8vkCWkxuOIsYLVdgtIb13uGUfgt089S2OPLRLc9WG9GfuIP8OGgKr1gSFESvMUIG4dhBA==",
      0x931a59a5d104e9428c512edd3bcbe4096931b8e22c60b55d82d21bd77b8651f8,
      0x2dd3cf52d8e3cb44b73d586f467ee20ff0e1a02abd60485112bcc5081b876104)
  | 2 => ("UomhLpcJQDiJwjcuE5iQxEyjaaTyCa8G4xM+V8jNhSnXcALSiDd1o1aCKASIlrLP4f70w4jwaymsUhMMFXMeCQ==",
      0x5289a12e9709403889c2372e139890c44ca369a4f209af06e3133e57c8cd8529,
      0xd77002d2883775a3568228048896b2cfe1fef4c388f06b29ac52130c15731e09)
  | _ => ("4xiukb5jziKgNGKrnpY15WPXqqxKVTxCtlOaOdPUssfm0o4FpS4jplVp/5lUuQMRx44k0gI1atwUhVC01WfnCA==",
      0xe318ae91be63ce22a03462ab9e9635e563d7aaac4a553c42b6539a39d3d4b2c7,
      0xe6d28e05a52e23a65569ff9954b90311c78e24d202356adc148550b4d567e708)

def recordedEnvelope (revision : UInt64) (signature : String) : DesiredStateEnvelope where
  handshake := ⟨"disabled", none, "b"⟩
  clusterId := "c"
  nodeId := "n"
  epoch := 1
  revision := revision
  leaseExpiresUnixSecs := 100
  desiredState := (recordedState revision).2
  signature := signature

def signedRevision (revision : UInt64) : DesiredStateEnvelope :=
  recordedEnvelope revision (recordedSignature revision).1

def signatureBytes (revision : UInt64) : Witness.Signature :=
  ⟨toBe 32 (recordedSignature revision).2.1 ++ toBe 32 (recordedSignature revision).2.2, by simp⟩

def clusterKey : FixedBytes 32 :=
  .ofNat 32 0xd75a980182b10ab7d54bfed3c964073a0ee172f3daa62325af021a68f707511a

def recordedPackages : Packages where
  ed := .recorded clusterKey
    ([1, 2, 3].map fun r => ((recordedEnvelope r "").json [], signatureBytes r))
  sha256 := Sha256.sha256
  isAlphanumeric := Char.isAlphanum
  base64Decode s :=
    ([1, 2, 3].map fun r => ((recordedSignature r).1, (signatureBytes r).val)).lookup s
  base64Encode bytes := (([1, 2, 3].map fun r =>
    ((signatureBytes r).val, (recordedSignature r).1)).lookup bytes).getD ""
  isIpNet _ := false
  isSocketAddr _ := false
  readsGrantedDesired _ := false
  readDesired bytes := ([1, 2, 3].map signedRevision).find? fun e => bytes = e.json []
  readGranted _ := none
  readSigned _ := none
  decodeDesired bytes :=
    ([1, 2, 3].map fun r => ((recordedState r).2, (recordedState r).1)).lookup bytes
  desiredJson e := some (e.json [])
  signedJson _ := none
  stringJson _ := none
  optionJson _ := none
  stringsJson _ := none
  peersJson _ := none
  peerKeysJson _ := none

def recordedServices : Services Unit Empty where
  pk := recordedPackages
  net := {
    observeLink := fun _ _ => false
    observeEffect := fun _ _ => .unknown
    netnsInode := fun _ _ => none
    perform := fun _ k => (false, k)
  }
  verifier := {
    verifyAndConsume := fun _ _ _ _ _ _ e => e.elim
    armEffectTarget := fun _ _ e => e.elim
    recordResult := fun _ _ _ e => e.elim
    recordFailure := fun _ _ _ e => e.elim
    markOutcomeUnknown := fun _ _ _ e => e.elim
    reconcileUnknown := fun _ e => e.elim
  }

def recordedConfig : Config recordedServices where
  uid := 1000
  cluster := "c"
  node := "n"
  key := clusterKey
  grants := none
  authorizationIdentity := some (⟨.disabled, .zero 32⟩, "b")
  kernel := ()

def recordedHost (floors : OrdMap String RevisionFloor) (stores : List StoreOutcome) :
    Host recordedServices where
  server := (NetdServer.compose recordedConfig).restored (.zero 16)
    (some ⟨.fill 16 7, 1, ⟨.empty, floors⟩⟩)
  file := some ⟨.fill 16 7, 1, ⟨.empty, floors⟩⟩
  stores := stores
  calls := []

def framed (body : Bytes) : Bytes := u32Be body.length ++ body

def thirdRefused (floors : OrdMap String RevisionFloor) :
    Except NetdResponse Dispatch × Host recordedServices :=
  prepareDispatch recordedServices 1000 (framed ((signedRevision 3).json [])) 50
    (recordedHost floors [.failed]).idle

theorem refused_frame_leaves_floors_fresh :
    (thirdRefused .empty).1
        = .error (.rejected .busy "failed to persist desired revision floor") ∧
      (thirdRefused .empty).2.floors = (recordedHost .empty [.failed]).floors ∧
      (thirdRefused .empty).2.owned = (recordedHost .empty [.failed]).owned := by
  have hrun : (thirdRefused .empty).1
      = .error (.rejected .busy "failed to persist desired revision floor") := by decide +kernel
  have hcalls : .applyLegacyDesired ∉ (thirdRefused .empty).2.calls := by decide +kernel
  have hrefused : thirdRefused .empty
      = (.error (.rejected .busy "failed to persist desired revision floor"),
        (thirdRefused .empty).2) := by
    rw [← hrun]
  refine ⟨hrun, (refused_frame_leaves_floors_iff (recordedHost .empty [.failed]) 1000
    (framed ((signedRevision 3).json [])) 50 _ _ hrefused hcalls).mpr fun _ => ?_⟩
  have hcontent : recordedServices.pk.frameContent ((framed ((signedRevision 3).json [])).drop 4)
      = .desired (signedRevision 3) := by decide +kernel
  rw [hcontent]
  exact fun _ _ => rfl

def secondFloors : OrdMap String RevisionFloor :=
  OrdMap.empty.insert desiredScope ⟨1, 2, 100⟩

/-- The scope had the floor of the second revision: the refusal of the third has taken it away. -/
theorem refused_frame_forgets_floor :
    (thirdRefused secondFloors).1
        = .error (.rejected .busy "failed to persist desired revision floor") ∧
      .applyLegacyDesired ∉ (thirdRefused secondFloors).2.calls ∧
      (recordedHost secondFloors [.failed]).floors.get desiredScope = some ⟨1, 2, 100⟩ ∧
      (thirdRefused secondFloors).2.floors.get desiredScope = none := by
  decide +kernel

end Ferrocrate.Netd
