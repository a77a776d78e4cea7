import Ferrocrate.Authorization.Delegation

/-! Attenuated delegation claims (`CriDelegationClaims::attenuate`): a chain of them never allows
what its first claims do not allow. -/
namespace Ferrocrate.Authorization
open Lib
open Witness (Digest Ed25519 Signature)

namespace CriDelegationClaims

def new (c : CriDelegationClaims) : Except DelegationError CriDelegationClaims := do
  c.validate
  return c

def attenuate (c : CriDelegationClaims) (allowedActions : List Action)
    (allowedResources : List String) (nonce : String) (deadlineUnixMs : UInt64) :
    Except DelegationError CriDelegationClaims :=
  if nonce = c.nonce ∨ ¬ (∀ action ∈ allowedActions, action ∈ c.allowedActions)
      ∨ ¬ (∀ resource ∈ allowedResources, resource ∈ c.allowedResources)
      ∨ deadlineUnixMs > c.deadlineUnixMs then .error .attenuation
  else new { c with allowedActions, allowedResources, nonce, deadlineUnixMs }

def Attenuates (c c' : CriDelegationClaims) : Prop :=
  ∃ actions resources nonce deadline, c.attenuate actions resources nonce deadline = .ok c'

theorem new_eq_ok {c c' : CriDelegationClaims} (h : new c = .ok c') :
    c' = c ∧ c.validate = .ok () := by
  obtain ⟨_, hvalid, heq⟩ := Except.bind_eq_ok.mp h
  exact ⟨(Except.ok.inj heq).symm, hvalid⟩

structure SameBinding (c c' : CriDelegationClaims) : Prop where
  issuer : c'.issuer = c.issuer
  keyId : c'.keyId = c.keyId
  transportSubject : c'.transportSubject = c.transportSubject
  audience : c'.audience = c.audience
  delegatedPrincipal : c'.delegatedPrincipal = c.delegatedPrincipal
  bootId : c'.bootId = c.bootId
  policyDigest : c'.policyDigest = c.policyDigest

theorem SameBinding.refl (c : CriDelegationClaims) : SameBinding c c :=
  ⟨rfl, rfl, rfl, rfl, rfl, rfl, rfl⟩

variable {a b c : CriDelegationClaims}

theorem SameBinding.trans (hab : SameBinding a b)
    (hbc : SameBinding b c) : SameBinding a c where
  issuer := hbc.issuer.trans hab.issuer
  keyId := hbc.keyId.trans hab.keyId
  transportSubject := hbc.transportSubject.trans hab.transportSubject
  audience := hbc.audience.trans hab.audience
  delegatedPrincipal := hbc.delegatedPrincipal.trans hab.delegatedPrincipal
  bootId := hbc.bootId.trans hab.bootId
  policyDigest := hbc.policyDigest.trans hab.policyDigest

structure Narrows (c c' : CriDelegationClaims) : Prop extends SameBinding c c' where
  actions : ∀ action ∈ c'.allowedActions, action ∈ c.allowedActions
  resources : ∀ resource ∈ c'.allowedResources, resource ∈ c.allowedResources
  deadline : c'.deadlineUnixMs ≤ c.deadlineUnixMs

theorem Narrows.refl (c : CriDelegationClaims) : Narrows c c :=
  { SameBinding.refl c with
    actions := fun _ h => h
    resources := fun _ h => h
    deadline := UInt64.le_refl _ }

theorem Narrows.trans (hab : Narrows a b) (hbc : Narrows b c) :
    Narrows a c :=
  { hab.toSameBinding.trans hbc.toSameBinding with
    actions := fun action h => hab.actions action (hbc.actions action h)
    resources := fun resource h => hab.resources resource (hbc.resources resource h)
    deadline := UInt64.le_trans hbc.deadline hab.deadline }

theorem Attenuates.narrows {c c' : CriDelegationClaims} (h : Attenuates c c') :
    Narrows c c' ∧ c'.validate = .ok () := by
  obtain ⟨actions, resources, nonce, deadline, h⟩ := h
  obtain ⟨hcheck, hnew⟩ := Except.ite_error_eq_ok.mp h
  obtain ⟨rfl, hvalid⟩ := new_eq_ok hnew
  simp only [not_or, not_not] at hcheck
  obtain ⟨-, hactions, hresources, hdeadline⟩ := hcheck
  exact ⟨{ SameBinding.refl c with
    actions := hactions
    resources := hresources
    deadline := UInt64.not_lt.mp hdeadline }, hvalid⟩

theorem chain_narrows {c : CriDelegationClaims} {chain : List CriDelegationClaims}
    (h : (c :: chain).IsChain Attenuates) :
    ∀ c' ∈ chain, Narrows c c' ∧ c'.validate = .ok () := by
  induction chain generalizing c with
  | nil => exact fun _ hmem => nomatch hmem
  | cons next chain ih =>
    obtain ⟨hstep, hrest⟩ := List.isChain_cons_cons.mp h
    have hnext := hstep.narrows
    intro c' hmem
    cases List.mem_cons.mp hmem with
    | inl heq => exact heq ▸ hnext
    | inr hlater =>
      obtain ⟨hnarrows, hvalid⟩ := ih hrest c' hlater
      exact ⟨hnext.1.trans hnarrows, hvalid⟩

end CriDelegationClaims

namespace CriDelegationVerifier
variable {ed : Ed25519}

def passes (v : CriDelegationVerifier ed) (r : DelegationRequest) : Prop :=
  ¬ r.assertion.claims.deadlineUnixMs < r.now ∧ v.outOfScope r = false

variable {v : CriDelegationVerifier ed}

theorem outOfScope_eq_false {r : DelegationRequest} :
    v.outOfScope r = false ↔ r.assertion.claims.transportSubject = r.transportSubject ∧
      r.assertion.claims.audience = v.audience ∧ r.assertion.claims.bootId = v.bootId ∧
      r.assertion.claims.policyDigest = v.policyDigest ∧
      r.action ∈ r.assertion.claims.allowedActions ∧
      r.resource ∈ r.assertion.claims.allowedResources := by
  simp [outOfScope]

theorem passes_of_narrows {c c' : CriDelegationClaims}
    (h : c.Narrows c') {signature signature' : Signature} {subject : String} {action : Action}
    {resource : String} {now : UInt64}
    (hpasses : v.passes ⟨⟨c', signature'⟩, subject, action, resource, now⟩) :
    v.passes ⟨⟨c, signature⟩, subject, action, resource, now⟩ := by
  obtain ⟨hdeadline, hscope⟩ := hpasses
  obtain ⟨hsubject, haudience, hboot, hpolicy, haction, hresource⟩ := outOfScope_eq_false.mp hscope
  refine ⟨fun hexpired => hdeadline (UInt64.lt_of_le_of_lt h.deadline hexpired),
    outOfScope_eq_false.mpr ⟨?_, ?_, ?_, ?_, h.actions _ haction, h.resources _ hresource⟩⟩
  · exact h.transportSubject.symm.trans hsubject
  · exact h.audience.symm.trans haudience
  · exact h.bootId.symm.trans hboot
  · exact h.policyDigest.symm.trans hpolicy

end CriDelegationVerifier

open CriDelegationClaims

/-- Attenuation never widens: along a chain that starts at claims that `new` built, all are valid
and bound alike, and what any of them passes for the first passes for. -/
theorem attenuation_never_widens {ed : Ed25519} (v : CriDelegationVerifier ed)
    (c₀ : CriDelegationClaims) (chain : List CriDelegationClaims) (hnew : new c₀ = .ok c₀)
    (hchain : (c₀ :: chain).IsChain Attenuates) :
    ∀ c ∈ c₀ :: chain, SameBinding c₀ c ∧ c.validate = .ok () ∧
      ∀ signature₀ signature subject action resource now,
        v.passes ⟨⟨c, signature⟩, subject, action, resource, now⟩ →
        v.passes ⟨⟨c₀, signature₀⟩, subject, action, resource, now⟩ := by
  have hall : ∀ c ∈ c₀ :: chain, Narrows c₀ c ∧ c.validate = .ok () := by
    intro c hmem
    cases List.mem_cons.mp hmem with
    | inl heq =>
      rw [heq]
      exact ⟨.refl c₀, (new_eq_ok hnew).2⟩
    | inr hlater => exact chain_narrows hchain c hlater
  intro c hmem
  obtain ⟨hnarrows, hvalid⟩ := hall c hmem
  exact ⟨hnarrows.toSameBinding, hvalid,
    fun _ _ _ _ _ _ => CriDelegationVerifier.passes_of_narrows hnarrows⟩

def rootClaims : CriDelegationClaims where
  issuer := "issuer-a"
  keyId := "key-a"
  transportSubject := "transport-a"
  audience := "ferro-cri"
  delegatedPrincipal := "alice"
  allowedActions := [.imagePull, .imageDelete]
  allowedResources := ["image:alpine", "image:busybox"]
  nonce := "nonce-a"
  deadlineUnixMs := 2000
  bootId := "boot-a"
  policyDigest := .zero 32

def childClaims : CriDelegationClaims :=
  { rootClaims with
    allowedActions := [.imagePull]
    allowedResources := ["image:alpine"]
    nonce := "nonce-b"
    deadlineUnixMs := 1000 }

def childVerifier : CriDelegationVerifier (.recorded (.zero 32) []) :=
  ⟨[], "ferro-cri", "boot-a", .zero 32⟩

theorem attenuation_never_widens_child :
    SameBinding rootClaims childClaims ∧ childClaims.validate = .ok () ∧
      childVerifier.passes
        ⟨⟨rootClaims, .zero 64⟩, "transport-a", .imagePull, "image:alpine", 500⟩ := by
  have hchain : [rootClaims, childClaims].IsChain Attenuates :=
    List.isChain_cons_cons.mpr
      ⟨⟨[.imagePull], ["image:alpine"], "nonce-b", 1000, by decide +kernel⟩, .singleton _⟩
  have hpasses : childVerifier.passes
      ⟨⟨childClaims, .zero 64⟩, "transport-a", .imagePull, "image:alpine", 500⟩ :=
    ⟨by decide +kernel, by decide +kernel⟩
  obtain ⟨hbinding, hvalid, hwider⟩ := attenuation_never_widens childVerifier rootClaims
    [childClaims] (by decide +kernel) hchain childClaims (by simp)
  exact ⟨hbinding, hvalid, hwider _ _ _ _ _ _ hpasses⟩

end Ferrocrate.Authorization
