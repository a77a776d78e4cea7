import Ferrocrate.Witness.Encoding

/-! Stored records as byte strings: their length, and lists of them read back. -/
namespace Ferrocrate.Witness
open Lib

theorem length_putFixedOptional_le {n : Nat} (o : Option (FixedBytes n)) :
    (putFixedOptional o).length ≤ n + 1 := by
  cases o <;> simp [putFixedOptional]

theorem length_putEnumOptional_le {α : Type} (code : α → UInt8) (o : Option α) :
    (putEnumOptional code o).length ≤ 2 := by
  cases o <;> simp [putEnumOptional]

theorem length_putBoolOptional (o : Option Bool) : (putBoolOptional o).length = 1 := by
  match o with
  | none => rfl
  | some true => rfl
  | some false => rfl

theorem length_recordLayout (journalId : Id) (r : WitnessRecord) :
    (recordLayout journalId r).length = 296 + (putFixedOptional r.decisionId).length
      + (putFixedOptional r.rule).length + (putEnumOptional ReasonCode.code r.reason).length
      + (putFixedOptional r.resultDigest).length + (putFixedOptional r.recoveryLink).length
      + (putEnumOptional DisclosureClass.code r.pathClass).length
      + (putEnumOptional DisclosureClass.code r.deviceClass).length
      + (putFixedOptional r.correlationDigest).length := by
  simp only [recordLayout, List.length_append, List.length_cons, List.length_nil,
    FixedBytes.length_val, length_u64Be, length_putBoolOptional]
  omega

theorem length_recordLayout_le (journalId : Id) (r : WitnessRecord) :
    (recordLayout journalId r).length ≤ 419 := by
  have h1 := length_putFixedOptional_le r.decisionId
  have h2 := length_putFixedOptional_le r.rule
  have h3 := length_putFixedOptional_le r.resultDigest
  have h4 := length_putFixedOptional_le r.recoveryLink
  have h5 := length_putFixedOptional_le r.correlationDigest
  have h6 := length_putEnumOptional_le ReasonCode.code r.reason
  have h7 := length_putEnumOptional_le DisclosureClass.code r.pathClass
  have h8 := length_putEnumOptional_le DisclosureClass.code r.deviceClass
  rw [length_recordLayout]
  omega

theorem length_recordLayout_pos (journalId : Id) (r : WitnessRecord) :
    0 < (recordLayout journalId r).length := by
  simp [recordLayout]

theorem encodeRecord_eq {journalId : Id} {r : WitnessRecord} (h : validRecord r = true) :
    encodeRecord journalId r = .ok ⟨journalId, recordLayout journalId r⟩ := by
  have hl := length_recordLayout_le journalId r
  exact (encodeRecord_ok_iff _ _ _).mpr ⟨h, by simp only [maxRecordBytes]; omega, rfl⟩

theorem decodeRecord_spec {bytes : Bytes} {d : DecodedRecord} (h : decodeRecord bytes = .ok d) :
    validRecord d.record = true ∧ d.bytes = ⟨d.journalId, bytes⟩ := by
  unfold decodeRecord at h
  simp only at h
  split at h
  · cases h
  obtain ⟨⟨journalId, record⟩, -, h⟩ := Except.bind_eq_ok.mp h
  obtain ⟨_, hv, h⟩ := Except.bind_eq_ok.mp h
  cases h
  exact ⟨(validateRecord_ok_iff record).mp hv, rfl⟩

def decodedEntry (journalId : Id) (r : WitnessRecord) : DecodedRecord :=
  ⟨journalId, r, ⟨journalId, recordLayout journalId r⟩⟩

@[simp] theorem map_record_decodedEntry (journalId : Id) (rs : List WitnessRecord) :
    (rs.map (decodedEntry journalId)).map DecodedRecord.record = rs := by
  rw [List.map_map]
  exact List.map_id _

theorem decodeRecord_recordLayout {journalId : Id} {r : WitnessRecord} (h : validRecord r = true) :
    decodeRecord (recordLayout journalId r) = .ok (decodedEntry journalId r) :=
  decodeRecord_encodeRecord (encodeRecord_eq h)

theorem mapM_decodeRecord (journalId : Id) {rs : List WitnessRecord}
    (h : ∀ r ∈ rs, validRecord r = true) :
    (rs.map (recordLayout journalId)).mapM decodeRecord = .ok (rs.map (decodedEntry journalId)) := by
  induction rs with
  | nil => rfl
  | cons r rs ih =>
    rw [List.map_cons, List.mapM_cons, decodeRecord_recordLayout (h r List.mem_cons_self),
      ih fun x hx => h x (List.mem_cons_of_mem _ hx)]
    rfl

variable {ds : List DecodedRecord}

theorem mapM_append_singleton {stored : List Bytes} {bytes : Bytes} :
    (stored ++ [bytes]).mapM decodeRecord = .ok ds ↔
      ∃ init d, stored.mapM decodeRecord = .ok init ∧ decodeRecord bytes = .ok d ∧
        ds = init ++ [d] := by
  rw [List.mapM_append]
  simp only [Except.bind_eq_ok, List.mapM_cons, List.mapM_nil]
  constructor
  · rintro ⟨init, hinit, last, ⟨d, hd, _, hnil, hlast⟩, h⟩
    cases hnil
    cases hlast
    cases h
    exact ⟨init, d, hinit, hd, rfl⟩
  · rintro ⟨init, d, hinit, hd, rfl⟩
    exact ⟨init, hinit, [d], ⟨d, hd, [], rfl, rfl⟩, rfl⟩

theorem valid_of_mapM {stored : List Bytes}
    (h : stored.mapM decodeRecord = .ok ds) : ∀ d ∈ ds, validRecord d.record = true := by
  induction stored using List.reverseRecOn generalizing ds with
  | nil =>
    cases h
    simp
  | append_singleton stored bytes ih =>
    obtain ⟨init, d, hinit, hd, rfl⟩ := mapM_append_singleton.mp h
    intro x hx
    rcases List.mem_append.mp hx with hx | hx
    · exact ih hinit x hx
    · rw [List.mem_singleton.mp hx]
      exact (decodeRecord_spec hd).1

end Ferrocrate.Witness
