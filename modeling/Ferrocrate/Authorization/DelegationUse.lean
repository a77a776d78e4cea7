import Ferrocrate.Authorization.Delegation

/-! Verifications, revocations and reopenings on one replay store. A verification takes the lock
of the store twice: for the revocation of its key, and for everything else. -/
namespace Ferrocrate.Authorization
open Lib
open Witness (Digest Ed25519 Signature)

inductive DelegationEvent where
  | verified (claims : CriDelegationClaims) (inserted : Bool)
      (result : Except DelegationError ResolvedPrincipal)
  | revoked (claims : CriDelegationClaims)
  | keyRevoked (issuer keyId : String)

inductive VerifyPhase (ed : Ed25519) where
  | idle
  | called (verifier : CriDelegationVerifier ed) (request : DelegationRequest)
  | admitted (verifier : CriDelegationVerifier ed) (request : DelegationRequest) (role : Role)

structure DelegationSystem (ed : Ed25519) where
  store : DelegationStore
  verifier : CriDelegationVerifier ed
  phase : Nat → VerifyPhase ed
  history : List DelegationEvent

inductive DelegationCall (ed : Ed25519) where
  | verify (thread : Nat) (request : DelegationRequest)
  | step (thread : Nat) (failure : Option StoreFailure)
  | revoke (assertion : DelegationAssertion) (now : UInt64) (failure : Option StoreFailure)
  | revokeKey (issuer keyId : String) (now : UInt64) (failure : Option StoreFailure)
  | reopen (verifier : CriDelegationVerifier ed)

namespace DelegationSystem
variable {ed : Ed25519}

def move (m : DelegationSystem ed) (thread : Nat) (phase : VerifyPhase ed) : DelegationSystem ed :=
  { m with phase := Function.update m.phase thread phase }

def answer (m : DelegationSystem ed) (thread : Nat) (claims : CriDelegationClaims)
    (result : Except DelegationError ResolvedPrincipal) (store : DelegationStore) :
    DelegationSystem ed :=
  { m with
    store := store
    history := m.history
      ++ [DelegationEvent.verified claims (store.replay ≠ m.store.replay) result] }.move thread .idle

def act (m : DelegationSystem ed) (thread : Nat) (failure : Option StoreFailure) :
    DelegationSystem ed :=
  match m.phase thread with
  | .idle => m
  | .called verifier request =>
    match verifier.verifyKey request failure m.store with
    | .error e => m.answer thread request.assertion.claims (.error e) m.store
    | .ok role => m.move thread (.admitted verifier request role)
  | .admitted verifier request role =>
    let (result, store) := verifier.verifyReplay request role failure m.store
    m.answer thread request.assertion.claims result store

def next (m : DelegationSystem ed) : DelegationCall ed → DelegationSystem ed
  | .verify thread request =>
    match m.phase thread with
    | .idle => m.move thread (.called m.verifier request)
    | _ => m
  | .step thread failure => m.act thread failure
  | .revoke assertion now failure =>
    let (_, store) := m.verifier.revoke assertion now failure m.store
    { m with
      store := store
      history := if store.revoked assertion.claims then m.history ++ [.revoked assertion.claims]
        else m.history }
  | .revokeKey issuer keyId now failure =>
    let (_, store) := m.verifier.revokeKey issuer keyId now failure m.store
    { m with
      store := store
      history := if store.keyRevoked issuer keyId then m.history ++ [.keyRevoked issuer keyId]
        else m.history }
  | .reopen verifier => { m with verifier := verifier }

def run (calls : List (DelegationCall ed)) (m : DelegationSystem ed) : DelegationSystem ed :=
  calls.foldl next m

def initial (verifier : CriDelegationVerifier ed) : DelegationSystem ed :=
  ⟨.empty, verifier, fun _ => .idle, []⟩

local instance lawfulBEq_bytes : LawfulBEq Bytes := inferInstance

def keyed (m : DelegationSystem ed) : DelegationCall ed → Bool
  | .step thread _ =>
    match m.phase thread with
    | .admitted verifier request _ =>
      m.store.keyRevoked request.assertion.claims.issuer request.assertion.claims.keyId = false
        ∨ (verifier.refusal request m.store).isSome = true
        ∨ request.assertion.claims.replayKey ∈ m.store.replay
    | _ => true
  | _ => true

def keyedRun : List (DelegationCall ed) → DelegationSystem ed → Bool
  | [], _ => true
  | call :: calls, m => m.keyed call && keyedRun calls (m.next call)

end DelegationSystem

def respects : DelegationEvent → DelegationEvent → Bool
  | .verified c _ (.ok _), .verified c' _ (.ok _) => c.identity ≠ c'.identity
  | .revoked c, .verified c' true _ => c.identity ≠ c'.identity
  | .keyRevoked issuer keyId, .verified c' true _ => (c'.issuer, c'.keyId) ≠ (issuer, keyId)
  | _, _ => true

def DelegationEvent.entry : DelegationEvent → Option Bytes
  | .verified c true _ => some c.replayKey
  | _ => none

def DelegationEvent.clean : DelegationEvent → Bool
  | .verified _ inserted (.error e) => inserted = false ∨ e = .replayStore
  | _ => true

structure DelegationSystem.Honest {ed : Ed25519} (m : DelegationSystem ed) : Prop where
  order : m.history.Pairwise fun e e' => respects e e' = true
  clean : ∀ e ∈ m.history, e.clean = true
  replay : m.store.replay = (m.history.filterMap DelegationEvent.entry).reverse
  used : ∀ c inserted principal, .verified c inserted (.ok principal) ∈ m.history → inserted = true
  revocations : ∀ c, .revoked c ∈ m.history → m.store.revoked c = true
  keyRevocations : ∀ issuer keyId, .keyRevoked issuer keyId ∈ m.history →
    m.store.keyRevoked issuer keyId = true

namespace DelegationSystem.Honest
variable {ed : Ed25519} {m : DelegationSystem ed}

theorem of_threads (h : m.Honest) (phase : Nat → VerifyPhase ed) (verifier : CriDelegationVerifier ed) :
    Honest { m with phase := phase, verifier := verifier } :=
  ⟨h.order, h.clean, h.replay, h.used, h.revocations, h.keyRevocations⟩

theorem record (h : m.Honest) {store : DelegationStore} {e : DelegationEvent}
    (horder : ∀ e' ∈ m.history, respects e' e = true) (hclean : e.clean = true)
    (hreplay : store.replay = e.entry.toList ++ m.store.replay)
    (hused : ∀ c inserted principal, e = .verified c inserted (.ok principal) → inserted = true)
    (hrevoked : ∀ c, e = .revoked c ∨ m.store.revoked c = true → store.revoked c = true)
    (hkey : ∀ issuer keyId, e = .keyRevoked issuer keyId ∨ m.store.keyRevoked issuer keyId = true →
      store.keyRevoked issuer keyId = true) :
    Honest { m with store := store, history := m.history ++ [e] } where
  order := by
    rw [List.pairwise_append]
    refine ⟨h.order, List.pairwise_singleton _ _, fun e' he' x hx => ?_⟩
    rw [List.mem_singleton.mp hx]
    exact horder e' he'
  clean := by
    intro x hx
    obtain hx | hx := List.mem_append.mp hx
    · exact h.clean x hx
    · rw [List.mem_singleton.mp hx]
      exact hclean
  replay := by
    show store.replay = _
    rw [hreplay, h.replay, List.filterMap_append, List.reverse_append]
    cases he : e.entry <;> simp [he]
  used := by
    intro c inserted principal hc
    obtain hc | hc := List.mem_append.mp hc
    · exact h.used c inserted principal hc
    · exact hused c inserted principal (List.mem_singleton.mp hc).symm
  revocations := by
    intro c hc
    obtain hc | hc := List.mem_append.mp hc
    · exact hrevoked c (.inr (h.revocations c hc))
    · exact hrevoked c (.inl (List.mem_singleton.mp hc).symm)
  keyRevocations := by
    intro issuer keyId hc
    obtain hc | hc := List.mem_append.mp hc
    · exact hkey issuer keyId (.inr (h.keyRevocations issuer keyId hc))
    · exact hkey issuer keyId (.inl (List.mem_singleton.mp hc).symm)

theorem refuse (h : m.Honest) (claims : CriDelegationClaims) (e : DelegationError) :
    Honest { m with history := m.history ++ [.verified claims false (.error e)] } := by
  refine h.record ?_ (by simp [DelegationEvent.clean]) rfl (fun _ _ _ he => by cases he)
    (fun _ hc => hc.resolve_left (by simp)) (fun _ _ hc => hc.resolve_left (by simp))
  rintro (⟨c, inserted, result⟩ | c | ⟨issuer, keyId⟩) -
  · cases result <;> rfl
  · rfl
  · rfl

theorem insert (h : m.Honest) {claims : CriDelegationClaims}
    {result : Except DelegationError ResolvedPrincipal}
    (hresult : ∀ e, result = .error e → e = .replayStore)
    (hfresh : claims.replayKey ∉ m.store.replay) (hrevoked : m.store.revoked claims = false)
    (hkey : m.store.keyRevoked claims.issuer claims.keyId = false) :
    Honest { m with
      store := { m.store with replay := claims.replayKey :: m.store.replay }
      history := m.history ++ [.verified claims true result] } := by
  have hidentity : ∀ {c c' : CriDelegationClaims}, c.identity = c'.identity →
      c.replayKey = c'.replayKey ∧ c.revocationKey = c'.revocationKey := by
    intro c c' heq
    simp only [CriDelegationClaims.identity, Prod.mk.injEq] at heq
    obtain ⟨hissuer, hkeyId, hnonce⟩ := heq
    simp [CriDelegationClaims.replayKey, CriDelegationClaims.revocationKey,
      CriDelegationClaims.tableKey, hissuer, hkeyId, hnonce]
  refine h.record ?_ ?_ rfl ?_ (fun _ hc => hc.resolve_left (by simp))
    (fun _ _ hc => hc.resolve_left (by simp))
  · rintro (⟨c, inserted, r⟩ | c | ⟨issuer, keyId⟩) he
    · cases r with
      | error e => rfl
      | ok principal =>
        have hinserted := h.used c inserted principal he
        subst hinserted
        have hstored : c.replayKey ∈ m.store.replay := by
          rw [h.replay, List.mem_reverse, List.mem_filterMap]
          exact ⟨_, he, rfl⟩
        cases result with
        | error e => rfl
        | ok principal' =>
          refine decide_eq_true fun heq => hfresh ?_
          rw [← (hidentity heq).1]
          exact hstored
    · refine decide_eq_true fun heq => ?_
      have hstored := h.revocations c he
      rw [DelegationStore.revoked, (hidentity heq).2, ← DelegationStore.revoked, hrevoked] at hstored
      cases hstored
    · refine decide_eq_true fun heq => ?_
      have hstored := h.keyRevocations issuer keyId he
      obtain ⟨rfl, rfl⟩ := Prod.mk.inj heq
      rw [hkey] at hstored
      cases hstored
  · cases result with
    | error e => simp [DelegationEvent.clean, hresult e rfl]
    | ok principal => rfl
  · intro c inserted principal he
    cases he
    rfl

theorem answer_refused (h : m.Honest) (thread : Nat) (claims : CriDelegationClaims)
    (e : DelegationError) : (m.answer thread claims (.error e) m.store).Honest := by
  have hrefused := (h.refuse claims e).of_threads (Function.update m.phase thread .idle) m.verifier
  simpa only [DelegationSystem.answer, DelegationSystem.move, ne_eq, not_true, decide_false] using hrefused

theorem replayed (h : m.Honest) (thread : Nat) (verifier : CriDelegationVerifier ed)
    (request : DelegationRequest) (role : Role) (failure : Option StoreFailure)
    (hkeyed : m.store.keyRevoked request.assertion.claims.issuer request.assertion.claims.keyId = false
      ∨ (verifier.refusal request m.store).isSome = true
      ∨ request.assertion.claims.replayKey ∈ m.store.replay) :
    (m.answer thread request.assertion.claims
      (verifier.verifyReplay request role failure m.store).1
      (verifier.verifyReplay request role failure m.store).2).Honest := by
  unfold CriDelegationVerifier.verifyReplay
  split
  · exact h.answer_refused thread _ _
  split
  · exact h.answer_refused thread _ _
  next hadmitted =>
  split
  · exact h.answer_refused thread _ _
  by_cases hstored : request.assertion.claims.replayKey ∈ m.store.replay
  · simp only [DelegationStore.insertReplay, if_pos hstored]
    exact h.answer_refused thread _ _
  · have hkey : m.store.keyRevoked request.assertion.claims.issuer
        request.assertion.claims.keyId = false := by
      rw [hadmitted] at hkeyed
      exact hkeyed.resolve_right fun hor => hor.elim (fun hs => by cases hs) hstored
    have hunrevoked : m.store.revoked request.assertion.claims = false := by
      cases hr : m.store.revoked request.assertion.claims with
      | false => rfl
      | true => simp [CriDelegationVerifier.refusal, hr] at hadmitted
    have hinserted : ∀ result : Except DelegationError ResolvedPrincipal,
        (∀ e, result = .error e → e = .replayStore) →
        (m.answer thread request.assertion.claims result { m.store with
          replay := request.assertion.claims.replayKey :: m.store.replay }).Honest := by
      intro result hresult
      have hnew := (h.insert hresult hstored hunrevoked hkey).of_threads
        (Function.update m.phase thread .idle) m.verifier
      have hgrown : request.assertion.claims.replayKey :: m.store.replay ≠ m.store.replay :=
        List.cons_ne_self _ _
      simpa only [DelegationSystem.answer, DelegationSystem.move, hgrown, decide_true, ne_eq,
        not_false_eq_true] using hnew
    simp only [DelegationStore.insertReplay, if_neg hstored, Nat.one_ne_zero, if_false]
    split
    · exact hinserted _ fun e he => (Except.error.inj he).symm
    · exact hinserted _ fun e he => by cases he

theorem revoke (h : m.Honest) (assertion : DelegationAssertion) (now : UInt64)
    (failure : Option StoreFailure) : (m.next (.revoke assertion now failure)).Honest := by
  have hinsert : ∀ c, m.store.revoked c = true →
      (m.store.insertRevocation assertion.claims.revocationKey now).revoked c = true := by
    intro c hc
    unfold DelegationStore.insertRevocation
    split
    · exact hc
    · simp only [DelegationStore.revoked, List.any_cons, Bool.or_eq_true] at hc ⊢
      exact .inr hc
  have hrows : ∃ store, (m.verifier.revoke assertion now failure m.store).2 = store ∧
      store.replay = m.store.replay ∧ store.keyRevocations = m.store.keyRevocations ∧
      ∀ c, m.store.revoked c = true → store.revoked c = true := by
    refine ⟨_, rfl, ?_⟩
    unfold CriDelegationVerifier.revoke
    split
    · exact ⟨rfl, rfl, fun _ hc => hc⟩
    split
    · exact ⟨rfl, rfl, fun _ hc => hc⟩
    have hsame : (m.store.insertRevocation assertion.claims.revocationKey now).replay = m.store.replay ∧
        (m.store.insertRevocation assertion.claims.revocationKey now).keyRevocations
          = m.store.keyRevocations := by
      unfold DelegationStore.insertRevocation
      split <;> exact ⟨rfl, rfl⟩
    split
    · exact ⟨hsame.1, hsame.2, hinsert⟩
    · exact ⟨hsame.1, hsame.2, hinsert⟩
  obtain ⟨store, hstore, hreplay, hkeys, hrevoked⟩ := hrows
  have hkey : ∀ issuer keyId, store.keyRevoked issuer keyId = m.store.keyRevoked issuer keyId :=
    fun _ _ => by rw [DelegationStore.keyRevoked, hkeys]; rfl
  simp only [DelegationSystem.next, hstore]
  split
  next hadded =>
    refine h.record ?_ rfl (by rw [hreplay]; rfl) (fun _ _ _ he => by cases he) ?_
      (fun issuer keyId hc => by rw [hkey]; exact hc.resolve_left (by simp))
    · rintro (⟨c, inserted, result⟩ | c | ⟨issuer, keyId⟩) -
      · cases result <;> rfl
      · rfl
      · rfl
    · rintro c (hc | hc)
      · rw [← DelegationEvent.revoked.inj hc]
        exact hadded
      · exact hrevoked c hc
  · exact ⟨h.order, h.clean, hreplay.trans h.replay, h.used,
      fun c hc => hrevoked c (h.revocations c hc),
      fun issuer keyId hc => by rw [hkey]; exact h.keyRevocations issuer keyId hc⟩

theorem revokeKey (h : m.Honest) (issuer keyId : String) (now : UInt64)
    (failure : Option StoreFailure) : (m.next (.revokeKey issuer keyId now failure)).Honest := by
  have hinsert : ∀ issuer' keyId', m.store.keyRevoked issuer' keyId' = true →
      (m.store.insertKeyRevocation issuer keyId now).keyRevoked issuer' keyId' = true := by
    intro issuer' keyId' hc
    unfold DelegationStore.insertKeyRevocation
    split
    · exact hc
    · simp only [DelegationStore.keyRevoked, List.any_cons, Bool.or_eq_true] at hc ⊢
      exact .inr hc
  have hrows : ∃ store, (m.verifier.revokeKey issuer keyId now failure m.store).2 = store ∧
      store.replay = m.store.replay ∧ store.revocations = m.store.revocations ∧
      ∀ issuer' keyId', m.store.keyRevoked issuer' keyId' = true →
        store.keyRevoked issuer' keyId' = true := by
    refine ⟨_, rfl, ?_⟩
    unfold CriDelegationVerifier.revokeKey
    split
    · exact ⟨rfl, rfl, fun _ _ hc => hc⟩
    split
    · exact ⟨rfl, rfl, fun _ _ hc => hc⟩
    split
    · exact ⟨rfl, rfl, fun _ _ hc => hc⟩
    have hsame : (m.store.insertKeyRevocation issuer keyId now).replay = m.store.replay ∧
        (m.store.insertKeyRevocation issuer keyId now).revocations = m.store.revocations := by
      unfold DelegationStore.insertKeyRevocation
      split <;> exact ⟨rfl, rfl⟩
    split
    · exact ⟨hsame.1, hsame.2, hinsert⟩
    · exact ⟨hsame.1, hsame.2, hinsert⟩
  obtain ⟨store, hstore, hreplay, hclaims, hkey⟩ := hrows
  have hrevoked : ∀ c, store.revoked c = m.store.revoked c :=
    fun _ => by rw [DelegationStore.revoked, hclaims]; rfl
  simp only [DelegationSystem.next, hstore]
  split
  next hadded =>
    refine h.record ?_ rfl (by rw [hreplay]; rfl) (fun _ _ _ he => by cases he)
      (fun c hc => by rw [hrevoked]; exact hc.resolve_left (by simp)) ?_
    · rintro (⟨c, inserted, result⟩ | c | ⟨issuer, keyId⟩) -
      · cases result <;> rfl
      · rfl
      · rfl
    · rintro issuer' keyId' (hc | hc)
      · obtain ⟨rfl, rfl⟩ := DelegationEvent.keyRevoked.inj hc
        exact hadded
      · exact hkey issuer' keyId' hc
  · exact ⟨h.order, h.clean, hreplay.trans h.replay, h.used,
      fun c hc => by rw [hrevoked]; exact h.revocations c hc,
      fun issuer keyId hc => hkey issuer keyId (h.keyRevocations issuer keyId hc)⟩

theorem next (h : m.Honest) (call : DelegationCall ed) (hkeyed : m.keyed call = true) :
    (m.next call).Honest := by
  cases call with
  | verify thread request =>
    simp only [DelegationSystem.next]
    split
    · exact h.of_threads _ _
    · exact h
  | step thread failure =>
    simp only [DelegationSystem.next, DelegationSystem.act]
    cases hphase : m.phase thread with
    | idle => exact h
    | called verifier request =>
      dsimp only
      split
      · exact h.answer_refused thread _ _
      · exact h.of_threads _ _
    | admitted verifier request role =>
      simp only [DelegationSystem.keyed, hphase, decide_eq_true_eq] at hkeyed
      exact h.replayed thread verifier request role failure hkeyed
  | revoke assertion now failure => exact h.revoke assertion now failure
  | revokeKey issuer keyId now failure => exact h.revokeKey issuer keyId now failure
  | reopen verifier => exact h.of_threads _ _

theorem run (h : m.Honest) (calls : List (DelegationCall ed)) (hkeyed : keyedRun calls m = true) :
    (m.run calls).Honest := by
  induction calls generalizing m with
  | nil => exact h
  | cons call calls ih =>
    rw [keyedRun, Bool.and_eq_true] at hkeyed
    exact ih (h.next call hkeyed.1) hkeyed.2

end DelegationSystem.Honest

theorem DelegationSystem.initial_honest {ed : Ed25519} (verifier : CriDelegationVerifier ed) :
    (DelegationSystem.initial verifier).Honest :=
  ⟨List.Pairwise.nil, fun _ he => (nomatch he), rfl, fun _ _ _ he => (nomatch he),
    fun _ he => (nomatch he), fun _ _ he => (nomatch he)⟩

/-- In every run in which no key is revoked between the two lock sections of a verification that
goes through, a claim is used once and not after its revocation or that of its key, and the replay
table holds exactly the entries of the verifications that returned or failed by the store. -/
theorem run_delegations_respected {ed : Ed25519} (verifier : CriDelegationVerifier ed)
    (calls : List (DelegationCall ed))
    (hkeyed : DelegationSystem.keyedRun calls (.initial verifier) = true) :
    (DelegationSystem.run calls (.initial verifier)).history.Pairwise
        (fun e e' => respects e e' = true) ∧
      (∀ e ∈ (DelegationSystem.run calls (.initial verifier)).history, e.clean = true) ∧
      (DelegationSystem.run calls (.initial verifier)).store.replay
        = ((DelegationSystem.run calls (.initial verifier)).history.filterMap
          DelegationEvent.entry).reverse := by
  have h := (DelegationSystem.initial_honest verifier).run calls hkeyed
  exact ⟨h.order, h.clean, h.replay⟩

def recordedClaims : CriDelegationClaims where
  issuer := "issuer-a"
  keyId := "key-a"
  transportSubject := "transport-a"
  audience := "ferro-cri"
  delegatedPrincipal := "alice"
  allowedActions := [.imageDelete]
  allowedResources := ["image:alpine"]
  nonce := "nonce-a"
  deadlineUnixMs := 2000
  bootId := "boot-a"
  policyDigest := .zero 32

def trustedKey : FixedBytes 32 :=
  .ofNat 32 0xd75a980182b10ab7d54bfed3c964073a0ee172f3daa62325af021a68f707511a

def recordedSignature : Signature :=
  ⟨toBe 32 0x796b847bacc33cbfa9693f7324045d1f41b19363f4ae5059663b6f44b9e04ced
      ++ toBe 32 0x658f5b83dcac19742723e55955dcb4a1449d1225e58f3effaf0db0dbdd5c3b02,
    by simp⟩

def recordedScheme : Ed25519 :=
  .recorded trustedKey [(recordedClaims.signingBytes, recordedSignature)]

def recordedVerifier : CriDelegationVerifier recordedScheme :=
  .ofKeys [⟨"issuer-a", "key-a", trustedKey, .developer⟩] "ferro-cri" "boot-a" (.zero 32)

def recordedRequest : DelegationRequest :=
  ⟨⟨recordedClaims, recordedSignature⟩, "transport-a", .imageDelete, "image:alpine", 1000⟩

def verifies (thread : Nat) : List (DelegationCall recordedScheme) :=
  [.verify thread recordedRequest, .step thread none, .step thread none]

def answers (calls : List (DelegationCall recordedScheme)) : List Bool :=
  (DelegationSystem.run calls (.initial recordedVerifier)).history.map fun e =>
    match e with
    | .verified _ _ (.ok _) => true
    | _ => false

theorem run_delegations_respected_twice :
    answers (verifies 0 ++ verifies 1) = [true, false] ∧
    (DelegationSystem.run (verifies 0 ++ verifies 1) (.initial recordedVerifier)).history.Pairwise
        (fun e e' => respects e e' = true) ∧
      (∀ e ∈ (DelegationSystem.run (verifies 0 ++ verifies 1) (.initial recordedVerifier)).history,
        e.clean = true) ∧
      (DelegationSystem.run (verifies 0 ++ verifies 1) (.initial recordedVerifier)).store.replay
        = ((DelegationSystem.run (verifies 0 ++ verifies 1)
          (.initial recordedVerifier)).history.filterMap DelegationEvent.entry).reverse := by
  have hrun : answers (verifies 0 ++ verifies 1) = [true, false] ∧
      DelegationSystem.keyedRun (verifies 0 ++ verifies 1) (.initial recordedVerifier) = true := by
    decide +kernel
  exact ⟨hrun.1, run_delegations_respected _ _ hrun.2⟩

def revokedBetween : List (DelegationCall recordedScheme) :=
  (verifies 0).take 2 ++ [.revokeKey "issuer-a" "key-a" 1000 none] ++ (verifies 0).drop 2

theorem verify_after_key_revocation :
    answers revokedBetween = [false, true] ∧
      ¬ (DelegationSystem.run revokedBetween (.initial recordedVerifier)).history.Pairwise
        (fun e e' => respects e e' = true) := by
  decide +kernel

end Ferrocrate.Authorization
