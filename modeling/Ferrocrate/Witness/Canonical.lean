import Ferrocrate.Witness.Layout

/-! The record format is canonical: the decoder accepts exactly the bytes the encoder writes,
so encodings determine their journal and record and none extends another. -/
namespace Ferrocrate.Witness
open Lib Lib.Reader

def restoreRecord (record : ParsedRecord) : WitnessRecord where
  epoch := record.epoch
  sequence := record.sequence
  previousHash := record.previousHash
  eventId := record.eventId
  requestId := record.requestId
  runtimeInstanceId := record.runtimeInstanceId
  bootId := record.bootId
  principal := record.principal
  invocation := record.invocation
  action := record.action
  resourceKind := record.resourceKind
  resource := record.resource
  resourceGeneration := record.resourceGeneration
  policyVersion := record.policyVersion
  policyDigest := record.policyDigest
  decisionId := record.decisionId
  rule := record.rule
  decision := record.decision
  reason := record.reason
  requestDigest := record.requestDigest
  resultDigest := record.resultDigest
  wallTimeNs := record.wallTimeNs
  monotonicNs := record.monotonicNs
  stage := record.stage
  outcome := record.outcome
  recoveryLink := record.recoveryLink
  pathClass := record.pathClass
  deviceClass := record.deviceClass
  correlationDigest := record.correlationDigest

@[simp] theorem restoreRecord_eq (record : ParsedRecord) : restoreRecord record = record := rfl

/-! The decode tables have no second code for a value. -/

def CodesOnly {α : Type} (decode : UInt8 → Except WitnessError α) (code : α → UInt8) : Prop :=
  ∀ b a, decode b = .ok a → code a = b

theorem invocation_codesOnly : CodesOnly invocation Invocation.code := by
  intro b a h
  unfold invocation at h
  split at h <;> cases h <;> rfl

theorem action_codesOnly : CodesOnly action WitnessAction.code := by
  intro b a h
  unfold action at h
  split at h <;> cases h <;> rfl

theorem resourceKind_codesOnly : CodesOnly resourceKind WitnessResourceKind.code := by
  intro b a h
  unfold resourceKind at h
  split at h <;> cases h <;> rfl

theorem stage_codesOnly : CodesOnly stage WitnessStage.code := by
  intro b a h
  unfold stage at h
  split at h <;> cases h <;> rfl

theorem outcome_codesOnly : CodesOnly outcome WitnessOutcome.code := by
  intro b a h
  unfold outcome at h
  split at h <;> cases h <;> rfl

theorem disclosure_codesOnly : CodesOnly disclosure DisclosureClass.code := by
  intro b a h
  unfold disclosure at h
  split at h <;> cases h <;> rfl

theorem reason_codesOnly : CodesOnly reason ReasonCode.code := by
  intro b a h
  unfold reason at h
  split at h <;> cases h <;> rfl

namespace Decoder
variable {α β : Type} {decode : UInt8 → Except WitnessError α}

theorem enum_exact {code : α → UInt8}
    (h : CodesOnly decode code) : Exact (enum decode) (fun a => [code a]) := by
  intro bs a rest hr
  cases bs with
  | nil => cases hr
  | cons b bs =>
    simp only [enum] at hr
    cases hd : decode b with
    | error e => simp [hd, Except.map] at hr
    | ok a' =>
      simp only [hd, Except.map, Except.ok.injEq, Prod.mk.injEq] at hr
      obtain ⟨rfl, rfl⟩ := hr
      exact congrArg (· :: bs) (h b a' hd).symm

theorem i64_exact : Exact i64 (fun x => u64Be x.toUInt64) := by
  intro bs a rest h
  simp only [i64] at h
  cases hu : Reader.u64 WitnessError.truncated bs with
  | error e => simp [hu, Except.map] at h
  | ok p =>
    simp only [hu, Except.map, Except.ok.injEq, Prod.mk.injEq] at h
    obtain ⟨rfl, rfl⟩ := h
    simpa using Reader.u64_exact _ bs p.1 p.2 hu

theorem optional_exact {value : Reader WitnessError α} {w : α → Bytes} (h : Exact value w) :
    Exact (optional value) (fun o => match o with | none => [0] | some a => 1 :: w a) := by
  intro bs o rest hr
  cases bs with
  | nil => cases hr
  | cons b bs =>
    simp only [optional] at hr
    split at hr
    · next hb =>
      cases hr
      rw [hb]
      rfl
    split at hr
    · next hb =>
      cases hv : value bs with
      | error e => simp [hv, Except.map] at hr
      | ok p =>
        simp only [hv, Except.map, Except.ok.injEq, Prod.mk.injEq] at hr
        obtain ⟨rfl, rfl⟩ := hr
        rw [hb, h bs p.1 p.2 hv]
        rfl
    · cases hr

theorem fixedOptional_exact (n : Nat) : Exact (fixedOptional n) putFixedOptional := by
  intro bs o rest h
  have hbs := optional_exact (Reader.fixed_exact WitnessError.truncated n) bs o rest h
  cases o <;> exact hbs

theorem enumOptional_exact {code : α → UInt8}
    (h : CodesOnly decode code) : Exact (optional (enum decode)) (putEnumOptional code) := by
  intro bs o rest hr
  have hbs := optional_exact (enum_exact h) bs o rest hr
  cases o <;> exact hbs

theorem boolOptional_exact : Exact boolOptional putBoolOptional := by
  intro bs o rest h
  cases bs with
  | nil => cases h
  | cons b bs =>
    simp only [boolOptional] at h
    split at h
    · next hb => cases h; rw [hb]; rfl
    split at h
    · next hb => cases h; rw [hb]; rfl
    split at h
    · next hb => cases h; rw [hb]; rfl
    · cases h

theorem expect_exact (byte : UInt8) (field : String) :
    Exact (expect byte field) (fun _ => [byte]) := by
  intro bs a rest h
  cases bs with
  | nil => cases h
  | cons b bs =>
    simp only [expect] at h
    split at h
    · next hb => cases h; rw [hb]; rfl
    · cases h

theorem exact_bind {ε : Type} {r : Reader ε α} {w : α → Bytes} {f : α → Reader ε β}
    {bs rest front out : Bytes} {b : β} (h : Exact r w)
    (hf : ∀ a mid, f a mid = .ok (b, rest) → front ++ w a ++ mid = out)
    (hr : (r >>= f) bs = .ok (b, rest)) : front ++ bs = out := by
  obtain ⟨a, mid, ha, hb⟩ := Reader.bind_eq_ok.mp hr
  rw [h bs a mid ha, ← List.append_assoc]
  exact hf a mid hb

theorem record_exact : Exact record (fun p => recordLayout p.1 p.2) := by
  intro bs p rest
  have bytes := fun n => Reader.fixed_exact WitnessError.truncated n
  have word := Reader.u64_exact WitnessError.truncated
  unfold record
  rw [← List.nil_append bs]
  refine fun h => exact_bind (expect_exact _ _) (fun _ _ => ?_) h
  refine fun h => exact_bind (expect_exact _ _) (fun _ _ => ?_) h
  refine fun h => exact_bind (bytes _) (fun _ _ => ?_) h
  refine fun h => exact_bind word (fun _ _ => ?_) h
  refine fun h => exact_bind word (fun _ _ => ?_) h
  refine fun h => exact_bind (bytes _) (fun _ _ => ?_) h
  refine fun h => exact_bind (bytes _) (fun _ _ => ?_) h
  refine fun h => exact_bind (bytes _) (fun _ _ => ?_) h
  refine fun h => exact_bind (bytes _) (fun _ _ => ?_) h
  refine fun h => exact_bind (bytes _) (fun _ _ => ?_) h
  refine fun h => exact_bind (bytes _) (fun _ _ => ?_) h
  refine fun h => exact_bind (enum_exact invocation_codesOnly) (fun _ _ => ?_) h
  refine fun h => exact_bind (enum_exact action_codesOnly) (fun _ _ => ?_) h
  refine fun h => exact_bind (enum_exact resourceKind_codesOnly) (fun _ _ => ?_) h
  refine fun h => exact_bind (bytes _) (fun _ _ => ?_) h
  refine fun h => exact_bind word (fun _ _ => ?_) h
  refine fun h => exact_bind word (fun _ _ => ?_) h
  refine fun h => exact_bind (bytes _) (fun _ _ => ?_) h
  refine fun h => exact_bind (fixedOptional_exact _) (fun _ _ => ?_) h
  refine fun h => exact_bind (fixedOptional_exact _) (fun _ _ => ?_) h
  refine fun h => exact_bind boolOptional_exact (fun _ _ => ?_) h
  refine fun h => exact_bind (enumOptional_exact reason_codesOnly) (fun _ _ => ?_) h
  refine fun h => exact_bind (bytes _) (fun _ _ => ?_) h
  refine fun h => exact_bind (fixedOptional_exact _) (fun _ _ => ?_) h
  refine fun h => exact_bind i64_exact (fun _ _ => ?_) h
  refine fun h => exact_bind word (fun _ _ => ?_) h
  refine fun h => exact_bind (enum_exact stage_codesOnly) (fun _ _ => ?_) h
  refine fun h => exact_bind (enum_exact outcome_codesOnly) (fun _ _ => ?_) h
  refine fun h => exact_bind (fixedOptional_exact _) (fun _ _ => ?_) h
  refine fun h => exact_bind (enumOptional_exact disclosure_codesOnly) (fun _ _ => ?_) h
  refine fun h => exact_bind (enumOptional_exact disclosure_codesOnly) (fun _ _ => ?_) h
  refine fun h => exact_bind (fixedOptional_exact _) (fun _ _ => ?_) h
  intro h
  cases h
  simp only [recordLayout, List.append_assoc, List.nil_append]

end Decoder

theorem decodeRecord_bytes {bytes : Bytes} {d : DecodedRecord} (h : decodeRecord bytes = .ok d) :
    bytes = recordLayout d.journalId d.record := by
  unfold decodeRecord at h
  simp only at h
  split at h
  · cases h
  obtain ⟨⟨journalId, record⟩, hw, h⟩ := Except.bind_eq_ok.mp h
  obtain ⟨_, -, h⟩ := Except.bind_eq_ok.mp h
  cases h
  exact Reader.whole_exact Decoder.record_exact hw

theorem recordLayout_prefix {id id' : Id} {r r' : WitnessRecord}
    (h : recordLayout id r <+: recordLayout id' r') : id = id' ∧ r = r' := by
  obtain ⟨rest, hrest⟩ := h
  have hshort := Decoder.record_reads (id, r) rest
  have hlong := Decoder.record_reads (id', r') []
  simp only [List.append_nil] at hlong
  rw [hrest, hlong] at hshort
  have heq := (Prod.mk.inj (Except.ok.inj hshort)).1
  exact ⟨(Prod.mk.inj heq).1.symm, (Prod.mk.inj heq).2.symm⟩

/-- The codec is a bijection between valid records of a journal and the bytes it decodes, and
those bytes are prefix-free. -/
theorem record_codec_bijective :
    (∀ (id : Id) (r : WitnessRecord), validateRecord r = .ok () →
      ∃ bytes d, encodeRecord id r = .ok bytes ∧ decodeRecord bytes.bytes = .ok d ∧
        d.journalId = id ∧ restoreRecord d.record = r) ∧
    (∀ (b : Bytes) (d : DecodedRecord), decodeRecord b = .ok d →
      encodeRecord d.journalId (restoreRecord d.record) = .ok ⟨d.journalId, b⟩) ∧
    (∀ (id id' : Id) (r r' : WitnessRecord) (bytes bytes' : RecordBytes),
      encodeRecord id r = .ok bytes → encodeRecord id' r' = .ok bytes' →
      bytes.bytes = bytes'.bytes → id = id' ∧ r = r') ∧
    (∀ (id : Id) (r : WitnessRecord) (bytes : RecordBytes) (b : Bytes),
      encodeRecord id r = .ok bytes → b <+: bytes.bytes ∨ bytes.bytes <+: b → b ≠ bytes.bytes →
      ∀ d, decodeRecord b ≠ .ok d) := by
  refine ⟨?_, ?_, ?_, ?_⟩
  · intro id r hvalid
    have hv := (validateRecord_ok_iff r).mp hvalid
    exact ⟨_, _, encodeRecord_eq hv, decodeRecord_recordLayout hv, rfl, rfl⟩
  · intro b d h
    rw [restoreRecord_eq, encodeRecord_eq (decodeRecord_spec h).1, ← decodeRecord_bytes h]
  · intro id id' r r' bytes bytes' h h' heq
    obtain ⟨-, -, rfl⟩ := (encodeRecord_ok_iff _ _ _).mp h
    obtain ⟨-, -, rfl⟩ := (encodeRecord_ok_iff _ _ _).mp h'
    exact recordLayout_prefix ⟨[], by rw [List.append_nil]; exact heq⟩
  · intro id r bytes b h hprefix hne d hd
    obtain ⟨-, -, rfl⟩ := (encodeRecord_ok_iff _ _ _).mp h
    have hb := decodeRecord_bytes hd
    rw [hb] at hprefix hne
    obtain hshort | hlong := hprefix
    · obtain ⟨hid, hrecord⟩ := recordLayout_prefix hshort
      exact hne (by rw [hid, hrecord])
    · obtain ⟨hid, hrecord⟩ := recordLayout_prefix hlong
      exact hne (by rw [hid, hrecord])

end Ferrocrate.Witness
