import Ferrocrate.Lib.Framing
import Ferrocrate.Authorization.HelperGrant

/-! The bytes a grant's parameters are hashed as and its claims are signed as
(`authorization/helper_grant.rs`, `authorization/helper_grant_encoding.rs`). -/
namespace Ferrocrate.Authorization
open Lib

def GrantAction.code : GrantAction → UInt8
  | .networkCreate => 0
  | .networkDelete => 1
  | .networkAttach => 2
  | .networkDetach => 3
  | .networkInspect => 4

def GrantKind.code : GrantKind → UInt8
  | .mutation => 0
  | .cleanup => 1

def u16Be (n : Nat) : Bytes := toBe 2 n

theorem framedOn_u16Be : FramedOn {n | n < 2 ^ 16} u16Be := by
  refine .of_length (length_toBe 2) fun a ha b hb h => ?_
  have hvalue : a % 256 ^ 2 = b % 256 ^ 2 := by
    rw [← ofBe_toBe, ← ofBe_toBe, ← u16Be, ← u16Be, h]
  have ha' : a < 256 ^ 2 := ha
  have hb' : b < 256 ^ 2 := hb
  rwa [Nat.mod_eq_of_lt ha', Nat.mod_eq_of_lt hb'] at hvalue

namespace GrantParameters

def pushField (field : String × String) : Bytes := pushText field.1 ++ pushText field.2

def message (p : GrantParameters) : Bytes :=
  utf8 "ferrocrate.helper-parameters.v1\x00" ++ (pushText p.operation ++ (u16Be p.fields.length
    ++ (p.fields.flatMap pushField ++ u16Be 0)))

def digest (sha256 : Bytes → Witness.Digest) (p : GrantParameters) : Witness.Digest :=
  sha256 p.message

structure Bounded (p : GrantParameters) : Prop where
  operation : p.operation.utf8ByteSize ≤ 64
  fields : p.fields.length ≤ 128
  keys : ∀ f ∈ p.fields, f.1.utf8ByteSize ≤ 64
  values : ∀ f ∈ p.fields, f.2.utf8ByteSize ≤ 4096
  fds : p.fds = []

theorem new_eq_ok {operation : String} {fields : List (String × String)} {fds : List FdBinding}
    {p : GrantParameters} (h : new operation fields fds = .ok p) :
    p = ⟨operation, fields.insertionSort FieldLe, []⟩ ∧ p.Bounded := by
  unfold new at h
  split at h
  · cases h
  rename_i hsizes
  simp only [gt_iff_lt, not_or, not_lt, ne_eq, not_not] at hsizes
  simp only at h
  split at h
  · cases h
  rename_i hfields
  cases h
  obtain ⟨-, hoperation, hlength, -⟩ := hsizes
  have hbound : ∀ f ∈ fields.insertionSort FieldLe,
      f.1.utf8ByteSize ≤ 64 ∧ f.2.utf8ByteSize ≤ 4096 := by
    intro f hf
    have hany := (not_or.mp hfields).2
    simp only [List.any_eq_true, not_exists, not_and, Bool.or_eq_true, decide_eq_true_eq, not_or,
      gt_iff_lt, not_lt] at hany
    exact ⟨(hany f hf).1.2, (hany f hf).2⟩
  refine ⟨rfl, hoperation, ?_, fun f hf => (hbound f hf).1, fun f hf => (hbound f hf).2, rfl⟩
  rwa [List.length_insertionSort]

theorem framedOn_pushField :
    FramedOn {f | ShortText f.1 ∧ ShortText f.2} pushField := by
  intro f hf g hg
  exact framedOn_pushText.append framedOn_pushText f hf g hg

theorem message_injOn : Set.InjOn message {p | p.Bounded} := by
  intro p hp q hq h
  have hshort {r : GrantParameters} (hr : r.Bounded) {f : String × String} (hf : f ∈ r.fields) :
      ShortText f.1 ∧ ShortText f.2 := by
    have hkey := hr.keys f hf
    have hvalue := hr.values f hf
    exact ⟨by unfold ShortText; omega, by unfold ShortText; omega⟩
  have hname {r : GrantParameters} (hr : r.Bounded) : ShortText r.operation := by
    have := hr.operation
    unfold ShortText
    omega
  have hcount {r : GrantParameters} (hr : r.Bounded) : r.fields.length < 2 ^ 16 := by
    have := hr.fields
    omega
  obtain ⟨hoperation, h⟩ := framedOn_pushText _ (hname hp) _ (hname hq) _ _
    (List.append_cancel_left h)
  obtain ⟨hlength, h⟩ := framedOn_u16Be _ (hcount hp) _ (hcount hq) _ _ h
  obtain ⟨hfields, -⟩ := framedOn_pushField.flatMap hlength (fun _ => hshort hp)
    (fun _ => hshort hq) h
  cases p
  cases q
  simp only [mk.injEq]
  exact ⟨hoperation, hfields, hp.fds.trans hq.fds.symm⟩

end GrantParameters

namespace GrantClaims

def signingBytes (c : GrantClaims) : Bytes :=
  utf8 "ferrocrate.helper-grant\x00" ++ (u16Be c.schemaVersion.toNat ++ (pushText c.requestId
    ++ ([c.action.code] ++ (pushText c.resource.resourceUuid ++ (u64Be c.resource.generation
      ++ (c.parameterDigest.val ++ (pushText c.bootId ++ (u64Be c.wallDeadlineSecs
        ++ (u64Be c.monotonicDeadlineMillis ++ (c.nonce.val ++ (c.operationId.val
          ++ (c.requestDigest.val ++ (c.preconditionDigest.val ++ (c.recoveryRecipeDigest.val
            ++ (pushText c.issuer ++ (pushText c.keyId ++ ([c.kind.code]
              ++ (optional pushText c.originRequestId
                ++ optional FixedBytes.val c.liveIdentityDigest))))))))))))))))))

def ShortTexts (c : GrantClaims) : Prop :=
  ∀ text ∈ [c.requestId, c.resource.resourceUuid, c.bootId, c.issuer, c.keyId]
    ++ c.originRequestId.toList, ShortText text

instance : DecidablePred ShortTexts := fun _ => inferInstanceAs (Decidable (∀ text ∈ _, _))

theorem framedOn_action : FramedOn Set.univ fun a : GrantAction => [a.code] :=
  .of_length (fun _ => rfl) fun a _ b _ h => by cases a <;> cases b <;> first | rfl | cases h

theorem framedOn_kind : FramedOn Set.univ fun k : GrantKind => [k.code] :=
  .of_length (fun _ => rfl) fun a _ b _ h => by cases a <;> cases b <;> first | rfl | cases h

theorem framedOn_u16 : FramedOn Set.univ fun n : UInt16 => u16Be n.toNat := by
  intro a _ b _ s t h
  obtain ⟨hnat, hst⟩ := framedOn_u16Be _ a.toNat_lt _ b.toNat_lt s t h
  exact ⟨UInt16.toNat_inj.mp hnat, hst⟩

theorem signingBytes_injOn : Set.InjOn signingBytes {c | c.ShortTexts} := by
  intro c hc d hd h
  have hoptional (o : Option String) (ho : ∀ text ∈ o.toList, ShortText text) :
      o ∈ {o : Option String | ∀ text ∈ o, ShortText text} := by
    intro text ht
    exact ho text (by simpa using ht)
  simp only [Set.mem_ofPred_eq, ShortTexts, List.forall_mem_append, List.forall_mem_cons] at hc hd
  obtain ⟨⟨hcRequest, hcUuid, hcBoot, hcIssuer, hcKey, -⟩, hcOrigin⟩ := hc
  obtain ⟨⟨hdRequest, hdUuid, hdBoot, hdIssuer, hdKey, -⟩, hdOrigin⟩ := hd
  have huniv {γ : Type} (x : γ) : x ∈ (Set.univ : Set γ) := trivial
  -- one field of the claims for each step, in the order they are written
  obtain ⟨hversion, h⟩ := framedOn_u16 _ (huniv _) _ (huniv _) _ _ (List.append_cancel_left h)
  obtain ⟨hrequest, h⟩ := framedOn_pushText _ hcRequest _ hdRequest _ _ h
  obtain ⟨haction, h⟩ := framedOn_action _ (huniv _) _ (huniv _) _ _ h
  obtain ⟨huuid, h⟩ := framedOn_pushText _ hcUuid _ hdUuid _ _ h
  obtain ⟨hgeneration, h⟩ := framedOn_u64Be _ (huniv _) _ (huniv _) _ _ h
  obtain ⟨hparameters, h⟩ := framedOn_fixed 32 _ (huniv _) _ (huniv _) _ _ h
  obtain ⟨hboot, h⟩ := framedOn_pushText _ hcBoot _ hdBoot _ _ h
  obtain ⟨hwall, h⟩ := framedOn_u64Be _ (huniv _) _ (huniv _) _ _ h
  obtain ⟨hmonotonic, h⟩ := framedOn_u64Be _ (huniv _) _ (huniv _) _ _ h
  obtain ⟨hnonce, h⟩ := framedOn_fixed 16 _ (huniv _) _ (huniv _) _ _ h
  obtain ⟨hoperation, h⟩ := framedOn_fixed 16 _ (huniv _) _ (huniv _) _ _ h
  obtain ⟨hdigest, h⟩ := framedOn_fixed 32 _ (huniv _) _ (huniv _) _ _ h
  obtain ⟨hprecondition, h⟩ := framedOn_fixed 32 _ (huniv _) _ (huniv _) _ _ h
  obtain ⟨hrecipe, h⟩ := framedOn_fixed 32 _ (huniv _) _ (huniv _) _ _ h
  obtain ⟨hissuer, h⟩ := framedOn_pushText _ hcIssuer _ hdIssuer _ _ h
  obtain ⟨hkey, h⟩ := framedOn_pushText _ hcKey _ hdKey _ _ h
  obtain ⟨hkind, h⟩ := framedOn_kind _ (huniv _) _ (huniv _) _ _ h
  obtain ⟨horigin, h⟩ := framedOn_pushText.optional _ (hoptional _ hcOrigin) _
    (hoptional _ hdOrigin) _ _ h
  have hlive := ((framedOn_fixed 32).optional _ (fun _ _ => huniv _) _ (fun _ _ => huniv _) [] []
    (by simpa using h)).1
  have hresource : c.resource = d.resource := by
    cases hcr : c.resource
    cases hdr : d.resource
    simp_all
  cases c
  cases d
  simp only [mk.injEq]
  exact ⟨hversion, hrequest, haction, hresource, hparameters, hboot, hwall, hmonotonic, hnonce,
    hoperation, hdigest, hprecondition, hrecipe, hissuer, hkey, hkind, horigin, hlive⟩

end GrantClaims
end Ferrocrate.Authorization
