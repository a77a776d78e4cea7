import Ferrocrate.Witness.Journal.Ledger
import Ferrocrate.Witness.VerifyStream

/-! The two state machines over one list of records: the journal's operation states, kept by
operation id, and the verifier's lifecycles, kept by request id. -/
namespace Ferrocrate.Witness
open Lib

theorem Invocation.code_injective : Function.Injective Invocation.code := fun x y h =>
  Except.ok.inj ((invocation_code x).symm.trans ((congrArg invocation h).trans (invocation_code y)))

theorem WitnessAction.code_injective : Function.Injective WitnessAction.code := fun x y h =>
  Except.ok.inj ((action_code x).symm.trans ((congrArg action h).trans (action_code y)))

theorem WitnessResourceKind.code_injective : Function.Injective WitnessResourceKind.code :=
  fun x y h => Except.ok.inj
    ((resourceKind_code x).symm.trans ((congrArg resourceKind h).trans (resourceKind_code y)))

theorem disclosureCode_injective : Function.Injective disclosureCode := by
  intro x y h
  cases x with
  | none =>
    cases y with
    | none => rfl
    | some y => cases y <;> cases h
  | some x =>
    cases y with
    | none => cases x <;> cases h
    | some y =>
      exact congrArg some (Except.ok.inj
        ((disclosure_code x).symm.trans ((congrArg disclosure h).trans (disclosure_code y))))

theorem ofRecord_eq_of_bindingPreimage {r r' : WitnessRecord}
    (h : bindingPreimage r = bindingPreimage r') :
    RequestBinding.ofRecord r = RequestBinding.ofRecord r' := by
  unfold bindingPreimage at h
  have h := List.append_cancel_left h
  obtain ⟨-, h⟩ := List.append_inj h (by simp)
  obtain ⟨hruntime, h⟩ := List.append_inj h (by simp)
  obtain ⟨hboot, h⟩ := List.append_inj h (by simp)
  obtain ⟨hprincipal, h⟩ := List.append_inj h (by simp)
  obtain ⟨hinvocation, h⟩ := List.append_inj h rfl
  obtain ⟨haction, h⟩ := List.append_inj h rfl
  obtain ⟨hkind, h⟩ := List.append_inj h rfl
  obtain ⟨hresource, h⟩ := List.append_inj h (by simp)
  obtain ⟨hgeneration, h⟩ := List.append_inj h (by simp)
  obtain ⟨hversion, h⟩ := List.append_inj h (by simp)
  obtain ⟨hpolicy, h⟩ := List.append_inj h (by simp)
  obtain ⟨hrequest, h⟩ := List.append_inj h (by simp)
  obtain ⟨hpath, h⟩ := List.append_inj h rfl
  obtain ⟨hdevice, h⟩ := List.append_inj h rfl
  have hcorrelation : r.correlationDigest = r'.correlationDigest := by
    cases hc : r.correlationDigest with
    | none =>
      cases hc' : r'.correlationDigest with
      | none => rfl
      | some d' => simp [hc, hc'] at h
    | some d =>
      cases hc' : r'.correlationDigest with
      | none => simp [hc, hc'] at h
      | some d' =>
        simp only [hc, hc', List.cons.injEq, true_and] at h
        rw [FixedBytes.ext_val h]
  unfold RequestBinding.ofRecord
  rw [FixedBytes.ext_val hruntime, FixedBytes.ext_val hboot, FixedBytes.ext_val hprincipal,
    Invocation.code_injective (List.singleton_inj.mp hinvocation),
    WitnessAction.code_injective (List.singleton_inj.mp haction),
    WitnessResourceKind.code_injective (List.singleton_inj.mp hkind),
    FixedBytes.ext_val hresource, u64Be_injective hgeneration, u64Be_injective hversion,
    FixedBytes.ext_val hpolicy, FixedBytes.ext_val hrequest,
    disclosureCode_injective (List.singleton_inj.mp hpath),
    disclosureCode_injective (List.singleton_inj.mp hdevice), hcorrelation]

def BindingsSeparate (sha256 : Hasher) (rs : List WitnessRecord) : Prop :=
  ∀ r ∈ rs, ∀ r' ∈ rs, requestBindingDigest sha256 r = requestBindingDigest sha256 r' →
    bindingPreimage r = bindingPreimage r'

theorem BindingsSeparate.of_prefix {sha256 : Hasher} {rs rs' : List WitnessRecord}
    (h : BindingsSeparate sha256 rs') (hp : rs <+: rs') : BindingsSeparate sha256 rs :=
  fun r hr r' hr' => h r (hp.subset hr) r' (hp.subset hr')

inductive InPhase (received : WitnessRecord) (st : OperationState) : Phase → Prop
  | received (state : st.state = stateReceived) :
      InPhase received st (.active (.received (.ofRecord received)))
  | allowed (state : st.state = stateAllowed) :
      InPhase received st (.active (.allowed (.ofRecord received) st.decisionId))
  | unknown (state : st.state = stateUnknown) :
      InPhase received st (.active (.unknown (.ofRecord received) st.decisionId st.unknownEventId))
  | complete {kind : Terminal} (state : st.state = stateComplete) :
      InPhase received st (.closed kind)

structure Concerns (sha256 : Hasher) (id : OperationId) (st : OperationState)
    (entries : List WitnessRecord) : Prop where
  request : st.requestId = id
  phase : ∃ received ∈ entries, st.bindingDigest = requestBindingDigest sha256 received ∧
    ∃ p, InPhase received st p ∧ phaseOf id entries = some p

structure Agrees (sha256 : Hasher) (l : Ledger) : Prop where
  idle : ∀ id, l.operations id = none → phaseOf id l.entries = some .idle
  concerns : ∀ id st, l.operations id = some st → Concerns sha256 id st l.entries
  pending : ∀ id, (l.pending id).isSome = true ↔
    ∃ st, l.operations id = some st ∧ st.state ≠ stateComplete

theorem agrees_empty (sha256 : Hasher) : Agrees sha256 .empty where
  idle := fun _ _ => rfl
  concerns := by simp [Ledger.empty]
  pending := by simp [Ledger.empty]

theorem phaseOf_append_other {id : Id} {rs new : List ParsedRecord}
    (h : ∀ r ∈ new, r.requestId ≠ id) : phaseOf id (rs ++ new) = phaseOf id rs := by
  have hnil : ofRequest id new = [] := by
    rw [ofRequest, List.filter_eq_nil_iff]
    simpa using h
  rw [phaseOf, ofRequest, List.filter_append]
  rw [ofRequest] at hnil
  rw [hnil, List.append_nil]
  rfl

section Move
variable {sha256 : Hasher} {l : Ledger}

theorem Agrees.move (h : Agrees sha256 l) {id : OperationId} {new : List WitnessRecord}
    {st : OperationState} {l' : Ledger} (he : l'.entries = l.entries ++ new)
    (ho : l'.operations = Function.update l.operations id (some st))
    (hp : ∀ k, k ≠ id → l'.pending k = l.pending k)
    (hpending : (l'.pending id).isSome = true ↔ st.state ≠ stateComplete)
    (hnew : ∀ r ∈ new, r.requestId = id) (hc : Concerns sha256 id st (l.entries ++ new)) :
    Agrees sha256 l' := by
  refine ⟨?_, ?_, ?_⟩
  · intro k hk
    rw [ho] at hk
    by_cases hid : k = id
    · subst hid
      simp at hk
    · rw [Function.update_of_ne hid] at hk
      rw [he, phaseOf_append_other fun r hr => by rw [hnew r hr]; exact Ne.symm hid]
      exact h.idle k hk
  · intro k st' hk
    rw [ho] at hk
    by_cases hid : k = id
    · subst hid
      rw [Function.update_self, Option.some.injEq] at hk
      rw [← hk, he]
      exact hc
    · rw [Function.update_of_ne hid] at hk
      obtain ⟨hreq, received, hmem, hdigest, p, hin, hphase⟩ := h.concerns k st' hk
      refine ⟨hreq, received, by rw [he]; exact List.mem_append_left _ hmem, hdigest, p, hin, ?_⟩
      rw [he, phaseOf_append_other fun r hr => by rw [hnew r hr]; exact Ne.symm hid]
      exact hphase
  · intro k
    rw [ho]
    by_cases hid : k = id
    · subst hid
      simpa using hpending
    · rw [Function.update_of_ne hid, hp k hid]
      exact h.pending k

end Move

def LedgerEvent.closing : LedgerEvent → Option (Terminal × OperationId)
  | .denied id => some (.denied, id)
  | .outcome id => some (.outcome, id)
  | .recovered id => some (.recovery, id)
  | _ => none

def LedgerEvent.OwnRequest : LedgerEvent → Prop
  | .received id record => record.requestId = id
  | _ => True

section Step
variable {sha256 : Hasher} {journalId : Id} {epoch : UInt64} {e : LedgerEvent}
  {l l' : Ledger} {st : OperationState}

theorem sameBinding_of_matches {rs : List WitnessRecord}
    {received r : WitnessRecord} (hsep : BindingsSeparate sha256 rs) (hreceived : received ∈ rs)
    (hr : r ∈ rs) (hd : st.bindingDigest = requestBindingDigest sha256 received)
    (hm : st.bindingMatches sha256 r = true) :
    r.requestId = st.requestId ∧ sameBinding r (.ofRecord received) = true := by
  simp only [OperationState.bindingMatches, Bool.and_eq_true, decide_eq_true_eq] at hm
  refine ⟨hm.1.symm, sameBinding_iff.mpr (ofRecord_eq_of_bindingPreimage ?_)⟩
  exact hsep r hr received hreceived (hm.2.symm.trans hd)

variable {received : WitnessRecord}

theorem InPhase.received_inv {p : Phase}
    (h : InPhase received st p) (hs : st.state = stateReceived) :
    p = .active (.received (.ofRecord received)) := by
  cases h with
  | received => rfl
  | allowed state => rw [hs] at state; cases state
  | unknown state => rw [hs] at state; cases state
  | complete state => rw [hs] at state; cases state

theorem InPhase.allowed_inv {p : Phase}
    (h : InPhase received st p) (hs : st.state = stateAllowed) :
    p = .active (.allowed (.ofRecord received) st.decisionId) := by
  cases h with
  | received state => rw [hs] at state; cases state
  | allowed => rfl
  | unknown state => rw [hs] at state; cases state
  | complete state => rw [hs] at state; cases state

theorem InPhase.unknown_inv {p : Phase}
    (h : InPhase received st p) (hs : st.state = stateUnknown) :
    p = .active (.unknown (.ofRecord received) st.decisionId st.unknownEventId) := by
  cases h with
  | received state => rw [hs] at state; cases state
  | allowed state => rw [hs] at state; cases state
  | unknown => rfl
  | complete state => rw [hs] at state; cases state

variable {rs : List ParsedRecord}

theorem phaseOf_append_own {id : Id} {r : ParsedRecord} {p p' : Phase}
    (hid : r.requestId = id) (hp : phaseOf id rs = some p) (ha : p.advance r = some p') :
    phaseOf id (rs ++ [r]) = some p' := by
  subst hid
  rw [phaseOf_append_self, hp, Option.bind_some, ha]

theorem phaseOf_append_published {id : Id} {r : ParsedRecord}
    (hs : r.stage = .checkpointPublished) : phaseOf id (rs ++ [r]) = phaseOf id rs := by
  by_cases hid : r.requestId = id
  · subst hid
    rw [phaseOf_append_self]
    cases phaseOf r.requestId rs with
    | none => rfl
    | some p => cases p <;> simp [Phase.advance, hs]
  · exact phaseOf_append_of_ne _ hid

theorem Agrees.binding (h : Agrees sha256 l) {id : OperationId}
    (ho : l.operations id = some st) :
    ∃ received p, InPhase received st p ∧ phaseOf id l.entries = some p ∧ received ∈ l.entries ∧
      st.bindingDigest = requestBindingDigest sha256 received ∧
      ∀ {rs r}, BindingsSeparate sha256 rs → l.entries <+: rs → r ∈ rs →
        st.bindingMatches sha256 r = true →
        r.requestId = id ∧ sameBinding r (.ofRecord received) = true := by
  obtain ⟨hreq, received, hmem, hdigest, p, hin, hphase⟩ := h.concerns id st ho
  refine ⟨received, p, hin, hphase, hmem, hdigest, ?_⟩
  intro rs r hsep hpre hr hm
  rw [← hreq]
  exact sameBinding_of_matches hsep (hpre.subset hmem) hr hdigest hm

theorem terminalMatches_iff {r : WitnessRecord} :
    st.terminalMatches sha256 r = true ↔
      st.bindingMatches sha256 r = true ∧ r.decisionId = some st.decisionId := by
  simp [OperationState.terminalMatches]

theorem Agrees.step (h : Agrees sha256 l) (hs : Ledger.Step sha256 journalId epoch e l l')
    (hown : e.OwnRequest) (hsep : BindingsSeparate sha256 l'.entries) : Agrees sha256 l' := by
  have hothers : ∀ {id} {p : Option (UInt64 × RecoveryRecipe)} {k}, k ≠ id →
      Function.update l.pending id p k = l.pending k := fun hk => Function.update_of_ne hk _ _
  have hkept : ∀ {id st}, l.operations id = some st → st.state ≠ stateComplete →
      (l.pending id).isSome = true := fun ho hne => (h.pending _).mpr ⟨_, ho, hne⟩
  cases hs with
  | @received _ id generation recipe record stage digest resourceGeneration action kind new fresh
      valid =>
    have hown : record.requestId = id := hown
    refine h.move rfl rfl (fun k => hothers) ?_ (by simp [hown])
      ⟨hown, _, by simp, rfl, _, .received rfl, ?_⟩
    · simp only [Function.update_self, Option.isSome_some, OperationState.received]
      decide
    · exact phaseOf_append_own hown (h.idle id new) (by simp [Phase.advance, stage])
  | @decided _ id generation recipe st record decisionId stage pending readable operation before
      binding decision hdecision fresh valid =>
    obtain ⟨received, p, hin, hphase, hmem, hdigest, hmatch⟩ := h.binding operation
    obtain ⟨hid, hsame⟩ := hmatch hsep (List.prefix_append _ _) (by simp) binding
    rw [hin.received_inv before] at hphase
    refine h.move rfl rfl (fun _ _ => rfl) ?_ (by simpa using hid)
      ⟨(h.concerns id st operation).request, received, List.mem_append_left _ hmem, hdigest, _,
        .allowed rfl, ?_⟩
    · simp only [Ledger.extend, pending, Option.isSome_some]
      decide
    · refine phaseOf_append_own hid hphase ?_
      simp [Phase.advance, stage, hdecision, decision, hsame]
  | @denied _ id st decision denied stage answer deniedStage operation before binding deniedBinding
      sameDecision fresh deniedFresh distinct valid deniedValid =>
    obtain ⟨received, p, hin, hphase, hmem, hdigest, hmatch⟩ := h.binding operation
    have hpre : ∀ a b, l.entries <+: (l.entries ++ [a]) ++ [b] := fun a b => ⟨[a, b], by simp⟩
    obtain ⟨hid, hsame⟩ := hmatch hsep (hpre _ _) (by simp) binding
    obtain ⟨hid', hsame'⟩ := hmatch hsep (hpre _ _) (by simp) deniedBinding
    rw [hin.received_inv before] at hphase
    obtain ⟨decisionId, hdecision⟩ : ∃ d, decision.decisionId = some d := by
      refine Option.isSome_iff_exists.mp ?_
      simp only [validRecord, Ledger.stamp, stage, Bool.and_eq_true] at valid
      simp [valid]
    refine h.move (List.append_assoc _ _ _) rfl (fun k => hothers) (by simp) ?_
      ⟨(h.concerns id st operation).request, received, List.mem_append_left _ hmem, hdigest,
        .closed .denied, .complete rfl, ?_⟩
    · simp only [List.mem_append, List.mem_singleton]
      rintro r (rfl | rfl)
      · exact hid
      · exact hid'
    · rw [← List.append_assoc]
      refine phaseOf_append_own hid' (phaseOf_append_own hid hphase ?_)
        (p := .active (.deniedDecision (.ofRecord received) decisionId)) ?_
      · simp [Phase.advance, stage, hdecision, answer, hsame]
      · simp [Phase.advance, deniedStage, ← sameDecision, hdecision, hsame']
  | @outcome _ id st record stage known operation before pending terminal fresh valid =>
    obtain ⟨received, p, hin, hphase, hmem, hdigest, hmatch⟩ := h.binding operation
    obtain ⟨hb, hd⟩ := terminalMatches_iff.mp terminal
    obtain ⟨hid, hsame⟩ := hmatch hsep (List.prefix_append _ _) (by simp) hb
    rw [hin.allowed_inv before] at hphase
    refine h.move rfl rfl (fun k => hothers) (by simp) (by simpa using hid)
      ⟨(h.concerns id st operation).request, received, List.mem_append_left _ hmem, hdigest,
        .closed .outcome, .complete rfl, ?_⟩
    refine phaseOf_append_own hid hphase ?_
    simp only [Ledger.stamp_decisionId] at hd
    simp [Phase.advance, stage, known, hsame, hd]
  | @unknown _ id st record stage unknown operation before terminal fresh valid =>
    obtain ⟨received, p, hin, hphase, hmem, hdigest, hmatch⟩ := h.binding operation
    obtain ⟨hb, hd⟩ := terminalMatches_iff.mp terminal
    obtain ⟨hid, hsame⟩ := hmatch hsep (List.prefix_append _ _) (by simp) hb
    rw [hin.allowed_inv before] at hphase
    refine h.move rfl rfl (fun _ _ => rfl) ?_ (by simpa using hid)
      ⟨(h.concerns id st operation).request, received, List.mem_append_left _ hmem, hdigest,
        _, .unknown rfl, ?_⟩
    · simp only [Ledger.extend, hkept operation (by rw [before]; decide)]
      decide
    · refine phaseOf_append_own hid hphase ?_
      simp only [Ledger.stamp_decisionId] at hd
      simp [Phase.advance, stage, unknown, hsame, hd]
  | @recovered _ id st record stage operation before terminal link fresh valid =>
    obtain ⟨received, p, hin, hphase, hmem, hdigest, hmatch⟩ := h.binding operation
    obtain ⟨hb, hd⟩ := terminalMatches_iff.mp terminal
    obtain ⟨hid, hsame⟩ := hmatch hsep (List.prefix_append _ _) (by simp) hb
    rw [hin.unknown_inv before] at hphase
    refine h.move rfl rfl (fun k => hothers) (by simp) (by simpa using hid)
      ⟨(h.concerns id st operation).request, received, List.mem_append_left _ hmem, hdigest,
        .closed .recovery, .complete rfl, ?_⟩
    refine phaseOf_append_own hid hphase ?_
    simp only [Ledger.stamp_decisionId] at hd
    simp [Phase.advance, stage, link, hsame, hd]
  | published stage fresh valid =>
    have hsame : ∀ id, phaseOf id (l.entries ++ [l.stamp sha256 journalId epoch _])
        = phaseOf id l.entries := fun id => phaseOf_append_published stage
    refine ⟨fun id hid => (hsame id).trans (h.idle id hid), ?_, h.pending⟩
    intro id st ho
    obtain ⟨hreq, received, hmem, hdigest, p, hin, hphase⟩ := h.concerns id st ho
    exact ⟨hreq, received, List.mem_append_left _ hmem, hdigest, p, hin, (hsame id).trans hphase⟩

end Step

end Ferrocrate.Witness
