import Ferrocrate.Netd.Grants

/-! Runs of the grant verifier, with writes that fail and restarts. Memory only grows over what is
on disk, so a grant is accepted once and a stored result stays. -/
namespace Ferrocrate.Netd
open Lib
open Lib.Program
open Authorization
open Witness (Id)

def hexDigits (b : UInt8) : List Char := [(b.toNat / 16).digitChar, (b.toNat % 16).digitChar]

theorem hexDigits_injective : Function.Injective hexDigits := by
  intro x y h
  have hdigit : ∀ i j : Fin 16, i.val.digitChar = j.val.digitChar → i = j := by decide
  have hx := x.toNat_lt
  have hy := y.toNat_lt
  simp only [hexDigits, List.cons.injEq, and_true] at h
  have hhigh := Fin.mk.inj (hdigit ⟨x.toNat / 16, by omega⟩ ⟨y.toNat / 16, by omega⟩ h.1)
  have hlow := Fin.mk.inj (hdigit ⟨x.toNat % 16, by omega⟩ ⟨y.toNat % 16, by omega⟩ h.2)
  exact UInt8.toNat_inj.mp (by omega)

theorem flatMap_hexDigits_inj {as bs : Bytes} (hlen : as.length = bs.length)
    (h : as.flatMap hexDigits = bs.flatMap hexDigits) : as = bs := by
  induction as generalizing bs with
  | nil => exact (List.length_eq_zero_iff.mp hlen.symm).symm
  | cons x as ih =>
    cases bs with
    | nil => cases hlen
    | cons y bs =>
      rw [List.flatMap_cons, List.flatMap_cons] at h
      obtain ⟨hhead, htail⟩ := List.append_inj h rfl
      rw [hexDigits_injective hhead, ih (Nat.succ.inj hlen) htail]

theorem hex_inj {n : Nat} {a b : FixedBytes n} (h : hex a.val = hex b.val) : a = b :=
  FixedBytes.ext_val (flatMap_hexDigits_inj (by rw [a.length_eq, b.length_eq])
    (String.ofList_injective h))

namespace LedgerState

structure Le (s t : LedgerState) : Prop where
  consumed : ∀ {key operation}, s.consumed.get key = some operation →
    ∃ operation', t.consumed.get key = some operation' ∧ operation'.claims = operation.claims
  results : ∀ {id result}, s.results.get id = some result → t.results.get id = some result

theorem Le.refl (s : LedgerState) : s.Le s := ⟨fun h => ⟨_, h, rfl⟩, id⟩

theorem Le.trans {s t u : LedgerState} (h : s.Le t) (h' : t.Le u) : s.Le u where
  consumed hs := by
    obtain ⟨o, ho, hclaims⟩ := h.consumed hs
    obtain ⟨o', ho', hclaims'⟩ := h'.consumed ho
    exact ⟨o', ho', hclaims'.trans hclaims⟩
  results hs := h'.results (h.results hs)

structure Sound (presented : List HelperGrant) (s : LedgerState) : Prop where
  consumed : ∀ {key operation}, s.consumed.get key = some operation →
    key = hex operation.claims.nonce.val ∧ ∃ grant ∈ presented, grant.claims = operation.claims
  results : ∀ {id result}, s.results.get id = some result → result.requestId = id ∧
    ∃ operation, s.consumed.get (hex result.nonce.val) = some operation ∧
      operation.claims.requestId = id

variable {presented : List HelperGrant} {s s₀ : LedgerState}

theorem sound_empty : Sound presented empty := ⟨nofun, nofun⟩

theorem Sound.mono {presented' : List HelperGrant} (h : Sound presented s)
    (hsub : presented ⊆ presented') : Sound presented' s where
  consumed hs := by
    obtain ⟨hkey, grant, hmem, hclaims⟩ := h.consumed hs
    exact ⟨hkey, grant, hsub hmem, hclaims⟩
  results := h.results

variable {f : GrantOperation → GrantOperation}

theorem le_modify (s : LedgerState) (key : String)
    (hf : ∀ o, (f o).claims = o.claims) : s.Le { s with consumed := s.consumed.modify key f } where
  consumed {k o} h := by
    refine ⟨if k = key then f o else o, ?_, ?_⟩
    · rw [OrdMap.get_modify, h]
      split_ifs <;> rfl
    · split_ifs
      · exact hf o
      · rfl
  results := id

theorem Sound.modify (h : Sound presented s) (key : String)
    (hf : ∀ o, (f o).claims = o.claims) :
    Sound presented { s with consumed := s.consumed.modify key f } where
  consumed {k o} hk := by
    rw [OrdMap.get_modify] at hk
    split_ifs at hk with heq
    · obtain ⟨o', ho', rfl⟩ := Option.map_eq_some_iff.mp hk
      rw [hf]
      exact h.consumed ho'
    · exact h.consumed hk
  results {id r} hr := by
    obtain ⟨hid, o, ho, hrequest⟩ := h.results hr
    obtain ⟨o', ho', hclaims⟩ := (le_modify s key hf).consumed ho
    exact ⟨hid, o', ho', by rw [hclaims, hrequest]⟩

theorem Le.setPhase (s : LedgerState) (key : String) (phase : GrantPhase) :
    s.Le (s.setPhase key phase) :=
  le_modify s key fun _ => rfl

theorem Sound.setPhase (h : Sound presented s) (key : String) (phase : GrantPhase) :
    Sound presented (s.setPhase key phase) :=
  h.modify key fun _ => rfl

def Knows (s : LedgerState) (result : GrantResult) : Prop :=
  ∃ operation, s.consumed.get (hex result.nonce.val) = some operation ∧
    operation.claims.requestId = result.requestId

variable {result : GrantResult}

theorem le_insertResult (h : s.results.get result.requestId = none) :
    s.Le { s with results := s.results.insert result.requestId result } where
  consumed ho := ⟨_, ho, rfl⟩
  results {id r} hr := by
    rw [OrdMap.get_insert, if_neg, hr]
    rintro rfl
    rw [h] at hr
    cases hr

theorem Sound.insertResult (h : Sound presented s) (hk : s.Knows result) :
    Sound presented { s with results := s.results.insert result.requestId result } where
  consumed := h.consumed
  results {id r} hr := by
    rw [OrdMap.get_insert] at hr
    split_ifs at hr with heq
    · cases hr
      obtain ⟨operation, ho, hrequest⟩ := hk
      exact ⟨heq.symm, operation, ho, hrequest.trans heq.symm⟩
    · exact h.results hr

theorem close_grows (h : Sound presented s) (hk : s.Knows result)
    (key : String) (phase : GrantPhase) :
    s.Le (s.close key result phase) ∧ Sound presented (s.close key result phase) := by
  unfold close insertResultIfMissing
  split_ifs with hsome
  · exact ⟨.setPhase s key phase, h.setPhase key phase⟩
  · have hnone : s.results.get result.requestId = none := by simpa using hsome
    exact ⟨(le_insertResult hnone).trans (.setPhase _ key phase),
      (h.insertResult hk).setPhase key phase⟩

theorem knows_of_entry (h₀ : Sound presented s₀) (hle : s₀.Le s) {entry : String × GrantOperation}
    (hentry : entry ∈ s₀.consumed.entries) (identity outcome : String) :
    s.Knows ⟨entry.2.claims.requestId, entry.2.claims.nonce, identity, outcome⟩ := by
  have hget : s₀.consumed.get entry.1 = some entry.2 := (OrdMap.get_eq_some_iff _).mpr hentry
  obtain ⟨operation, hoperation, hclaims⟩ := hle.consumed hget
  exact ⟨operation, (h₀.consumed hget).1 ▸ hoperation, by rw [hclaims]⟩

theorem foldl_grows
    {f : LedgerState → String × GrantOperation → LedgerState}
    {entries : List (String × GrantOperation)} (hentries : ∀ e ∈ entries, e ∈ s₀.consumed.entries)
    (hf : ∀ s, s₀.Le s → Sound presented s → ∀ e ∈ s₀.consumed.entries,
      s.Le (f s e) ∧ Sound presented (f s e)) (hle : s₀.Le s) (hs : Sound presented s) :
    s₀.Le (entries.foldl f s) ∧ Sound presented (entries.foldl f s) := by
  induction entries generalizing s with
  | nil => exact ⟨hle, hs⟩
  | cons e entries ih =>
    obtain ⟨hstep, hsound⟩ := hf s hle hs e (hentries e List.mem_cons_self)
    exact ih (fun e he => hentries e (List.mem_cons_of_mem _ he)) (hle.trans hstep) hsound

theorem quarantineUnknown_grows (h : Sound presented s) :
    s.Le s.quarantineUnknown ∧ Sound presented s.quarantineUnknown := by
  refine foldl_grows (fun e he => ?_) (fun t hle ht e he => ?_) (.refl s) h
  · exact List.mem_of_mem_filter (List.mem_of_mem_filter he)
  · exact close_grows ht (knows_of_entry h hle he _ _) _ _

theorem reconcileUnknown_grows (h : Sound presented s)
    (observe : EffectReceipt → RecoveryObservation) :
    s.Le (s.reconcileUnknown observe) ∧ Sound presented (s.reconcileUnknown observe) := by
  refine foldl_grows (fun e he => ?_) (fun t hle ht e he => ?_) (.refl s) h
  · exact List.mem_of_mem_filter he
  · cases e.2.expectedReceipt with
    | none => exact ⟨.refl t, ht⟩
    | some receipt => exact close_grows ht (knows_of_entry h hle he _ _) _ _

theorem enter_grows (h : Sound presented s) {grant : HelperGrant} (hgrant : grant ∈ presented)
    (hnone : s.consumed.get (hex grant.claims.nonce.val) = none) :
    s.Le (s.enter grant) ∧ Sound presented (s.enter grant) := by
  have hle : s.Le (s.enter grant) := by
    refine ⟨fun ho => ⟨_, ?_, rfl⟩, id⟩
    rw [enter, OrdMap.get_insert, if_neg, ho]
    rintro rfl
    rw [hnone] at ho
    cases ho
  refine ⟨hle, fun hk => ?_, fun hr => ?_⟩
  · rw [enter, OrdMap.get_insert] at hk
    split_ifs at hk with heq
    · cases hk
      exact ⟨heq, grant, hgrant, rfl⟩
    · exact h.consumed hk
  · obtain ⟨hid, o, ho, hrequest⟩ := h.results hr
    obtain ⟨o', ho', hclaims⟩ := hle.consumed ho
    exact ⟨hid, o', ho', by rw [hclaims, hrequest]⟩

end LedgerState

namespace GrantLedger
open LedgerState

structure Held (presented : List HelperGrant) (floor : Option LedgerState) (l : GrantLedger) :
    Prop where
  state : Sound presented l.state
  file : ∀ f ∈ l.file, Sound presented f ∧ f.Le l.state
  floor : ∀ s ∈ floor, ∃ f ∈ l.file, s.Le f

variable {presented : List HelperGrant} {floor : Option LedgerState} {l : GrantLedger}

theorem Held.grows (h : Held presented floor l) {s : LedgerState}
    (hs : l.state.Le s ∧ Sound presented s) : Held presented floor { l with state := s } where
  state := hs.2
  file f hf := ⟨(h.file f hf).1, (h.file f hf).2.trans hs.1⟩
  floor := h.floor

theorem preserves_update {f : LedgerState → LedgerState}
    (hf : ∀ s, Sound presented s → s.Le (f s) ∧ Sound presented (f s)) :
    Preserves (Held presented floor) (update f) :=
  preserves_modify fun _ h => h.grows (hf _ h.state)

theorem Held.written (h : Held presented floor l) (rest : List PersistOutcome) :
    Held presented floor { l with file := some l.state, persists := rest } where
  state := h.state
  file f hf := by
    cases hf
    exact ⟨h.state, .refl _⟩
  floor s hs := by
    obtain ⟨f, hf, hle⟩ := h.floor s hs
    exact ⟨l.state, rfl, hle.trans (h.file f hf).2⟩

theorem wp_persist (h : Held presented floor l) {Q : Unit → GrantLedger → Prop}
    (hQ : ∀ rest, Q () { l with file := some l.state, persists := rest }) :
    wp persist Q (fun _ => Held presented floor) l := by
  unfold wp persist
  split
  · rename_i heq
    split at heq
    · cases heq
      exact hQ _
    · cases heq
    · cases heq
  · rename_i heq
    split at heq
    · cases heq
    · cases heq
      exact ⟨h.state, h.file, h.floor⟩
    · cases heq
      exact h.written _

theorem preserves_persist : Preserves (Held presented floor) persist :=
  fun _ h => wp_persist h fun rest => h.written rest

theorem preserves_openLedger : Preserves (Held presented floor) openLedger := by
  refine Preserves.bind (preserves_modify fun l h => ?_) fun _ =>
    (preserves_update fun s hs => quarantineUnknown_grows hs).bind fun _ => preserves_persist
  refine ⟨?_, fun f hf => ⟨(h.file f hf).1, ?_⟩, h.floor⟩
  · cases hfile : l.file with
    | none => exact sound_empty
    | some f => exact (h.file f hfile).1
  · rw [Option.mem_def.mp hf]
    exact .refl f

theorem wp_consume {grant : HelperGrant} (hgrant : grant ∈ presented)
    (h : Held presented floor l) :
    wp (consume grant) (fun _ l' => Held presented floor l' ∧
        l.state.consumed.get (hex grant.claims.nonce.val) = none ∧
        ∃ f ∈ l'.file, (f.consumed.get (hex grant.claims.nonce.val)).isSome)
      (fun _ => Held presented floor) l := by
  unfold consume
  simp only [wp_bind, wp_get, wp_rejectIf, update, wp_modify]
  refine ⟨fun _ => h, fun hnew => ?_⟩
  have hnone : l.state.consumed.get (hex grant.claims.nonce.val) = none := by
    simpa [OrdMap.contains] using hnew
  have hentered := h.grows (enter_grows h.state hgrant hnone)
  refine wp_persist hentered fun rest => ?_
  have hphased := (hentered.written rest).grows
    ⟨.setPhase _ (hex grant.claims.nonce.val) .consumedBeforeEffect,
      hentered.state.setPhase (hex grant.claims.nonce.val) .consumedBeforeEffect⟩
  refine wp_persist hphased fun rest => ⟨hphased.written rest, hnone, _, rfl, ?_⟩
  have hself : (l.state.enter grant).consumed.get (hex grant.claims.nonce.val)
      = some ⟨grant.claims, .pending, none, none⟩ := OrdMap.get_insert_self _ _ _
  obtain ⟨o, ho, -⟩ := (Le.setPhase (l.state.enter grant) (hex grant.claims.nonce.val)
    .consumedBeforeEffect).consumed hself
  exact Option.isSome_iff_exists.mpr ⟨o, ho⟩

theorem preserves_record (result : GrantResult) (phase : GrantPhase) :
    Preserves (Held presented floor) (record result phase) := by
  intro l h
  unfold record
  simp only [wp_bind, wp_get, wp_rejectIf]
  refine ⟨fun _ => h, fun hknown => ?_⟩
  have hknows : l.state.Knows result := by
    simpa [Knows] using hknown
  cases hold : l.state.results.get result.requestId with
  | some old => exact preserves_rejectIf _ _ l h
  | none =>
    simp only [update, wp_bind, wp_modify]
    have hrecorded := h.grows ⟨le_insertResult hold, h.state.insertResult hknows⟩
    exact preserves_persist _ (hrecorded.grows ⟨.setPhase _ _ phase, hrecorded.state.setPhase _ phase⟩)

theorem preserves_markOutcomeUnknown (nonce : Id) (effectIdentity : Option String)
    (expectedReceipt : Option EffectReceipt) :
    Preserves (Held presented floor) (markOutcomeUnknown nonce effectIdentity expectedReceipt) := by
  refine preserves_get.bind fun _ => (preserves_rejectIf _ _).bind fun _ =>
    Preserves.bind (preserves_update fun s hs => ?_) fun _ => preserves_persist
  exact ⟨le_modify s _ fun _ => rfl, hs.modify _ fun _ => rfl⟩

theorem preserves_reconcileUnknown (observe : EffectReceipt → RecoveryObservation) :
    Preserves (Held presented floor) (reconcileUnknown observe) :=
  (preserves_update fun _ hs => reconcileUnknown_grows hs observe).bind fun _ => preserves_persist

end GrantLedger
/-! Runs. -/

inductive GrantStep (pk : Packages) where
  | verifyAndConsume (config : GrantVerifier.Config pk) (grant : HelperGrant) (action : GrantAction)
      (uuid : String) (generation : UInt64) (parameters : GrantParameters)
      (wallNow monotonicNow : UInt64) (persists : List PersistOutcome)
  | recordResult (consumed : ConsumedGrant) (identity outcome : String)
      (persists : List PersistOutcome)
  | recordFailure (consumed : ConsumedGrant) (identity outcome : String)
      (persists : List PersistOutcome)
  | armEffect (consumed : ConsumedGrant) (persists : List PersistOutcome)
  | armEffectTarget (consumed : ConsumedGrant) (receipt : EffectReceipt)
      (persists : List PersistOutcome)
  | reconcileUnknown (observe : EffectReceipt → RecoveryObservation)
      (persists : List PersistOutcome)
  | restart (persists : List PersistOutcome)

/-- The ledger of a process that runs or has stopped, the nonces it has returned `Ok` for and the
grants that have passed its checks. -/
structure GrantHost where
  ledger : GrantLedger
  running : Bool
  accepted : List Id
  presented : List HelperGrant

namespace GrantHost
open GrantVerifier

def new : GrantHost := ⟨⟨.empty, none, []⟩, false, [], []⟩

def call (h : GrantHost) (persists : List PersistOutcome)
    (m : Program GrantError GrantLedger Unit) : GrantHost :=
  if h.running then { h with ledger := m.after { h.ledger with persists := persists } } else h

section Verifier
variable (pk : Packages) (grantJson : HelperGrant → Option Bytes)

def step (h : GrantHost) : GrantStep pk → GrantHost
  | .verifyAndConsume config grant action uuid generation parameters wallNow monotonicNow persists =>
    if h.running then
      let m := GrantVerifier.verifyAndConsume pk grantJson config grant action uuid generation
        parameters wallNow monotonicNow
      let l := { h.ledger with persists := persists }
      { h with
        ledger := m.after l
        accepted := match m.result l with
          | .ok consumed => consumed.nonce :: h.accepted
          | .error _ => h.accepted
        presented :=
          if (verify pk grantJson config l.state grant action uuid generation parameters wallNow
            monotonicNow).isOk then grant :: h.presented else h.presented }
    else h
  | .recordResult consumed identity outcome persists =>
    h.call persists (GrantVerifier.recordResult consumed identity outcome)
  | .recordFailure consumed identity outcome persists =>
    h.call persists (GrantVerifier.recordFailure consumed identity outcome)
  | .armEffect consumed persists => h.call persists (GrantVerifier.armEffect consumed)
  | .armEffectTarget consumed receipt persists =>
    h.call persists (GrantVerifier.armEffectTarget consumed receipt)
  | .reconcileUnknown observe persists => h.call persists (GrantLedger.reconcileUnknown observe)
  | .restart persists =>
    let l := { h.ledger with persists := persists }
    { h with
      ledger := GrantLedger.openLedger.after l
      running := (GrantLedger.openLedger.result l).isOk }

def run (h : GrantHost) (steps : List (GrantStep pk)) : GrantHost :=
  steps.foldl (step pk grantJson) h

end Verifier

structure Single (floor : Option LedgerState) (h : GrantHost) : Prop where
  held : h.ledger.Held h.presented floor
  stored : ∀ nonce ∈ h.accepted, ∃ f ∈ h.ledger.file, (f.consumed.get (hex nonce.val)).isSome
  nodup : h.accepted.Nodup

variable {floor : Option LedgerState} {h : GrantHost}

theorem single_new : new.Single none where
  held := ⟨LedgerState.sound_empty, nofun, nofun⟩
  stored := nofun
  nodup := .nil

variable {presented : List HelperGrant}

theorem held_persists {l : GrantLedger}
    (hl : l.Held presented floor) (persists : List PersistOutcome) :
    GrantLedger.Held presented floor { l with persists := persists } :=
  ⟨hl.state, hl.file, hl.floor⟩

theorem held_self {l : GrantLedger}
    (hl : l.Held presented floor) : l.Held presented l.file :=
  ⟨hl.state, hl.file, fun s hs => ⟨s, hs, .refl s⟩⟩

theorem stored_of_floor {l l' : GrantLedger}
    (hl : l'.Held presented l.file) {key : String}
    (hkey : ∃ f ∈ l.file, (f.consumed.get key).isSome) :
    ∃ f ∈ l'.file, (f.consumed.get key).isSome := by
  obtain ⟨f, hf, hsome⟩ := hkey
  obtain ⟨f', hf', hle⟩ := hl.floor f hf
  obtain ⟨o, ho⟩ := Option.isSome_iff_exists.mp hsome
  obtain ⟨o', ho', -⟩ := hle.consumed ho
  exact ⟨f', hf', Option.isSome_iff_exists.mpr ⟨o', ho'⟩⟩

variable {m : Program GrantError GrantLedger Unit}

theorem Single.after (hs : h.Single floor)
    (hm : ∀ floor, Preserves (GrantLedger.Held h.presented floor) m) (running : Bool)
    (persists : List PersistOutcome) :
    Single floor { h with
      ledger := m.after { h.ledger with persists := persists }, running := running } where
  held := after_of_wp (hm floor _ (held_persists hs.held persists))
  stored nonce hn := stored_of_floor
    (after_of_wp (hm _ _ (held_persists (held_self hs.held) persists))) (hs.stored nonce hn)
  nodup := hs.nodup

theorem Single.call (hs : h.Single floor)
    (hm : ∀ floor, Preserves (GrantLedger.Held h.presented floor) m)
    (persists : List PersistOutcome) : (h.call persists m).Single floor := by
  unfold GrantHost.call
  split_ifs
  · exact hs.after hm _ persists
  · exact hs

section Verifier
variable {pk : Packages} {grantJson : HelperGrant → Option Bytes}

theorem wp_verifyAndConsume {config : Config pk} {grant : HelperGrant} {action : GrantAction}
    {uuid : String} {generation : UInt64} {parameters : GrantParameters}
    {wallNow monotonicNow : UInt64} {presented : List HelperGrant} {l : GrantLedger}
    (hpresented : (verify pk grantJson config l.state grant action uuid generation parameters
      wallNow monotonicNow).isOk → grant ∈ presented) (hl : l.Held presented floor) :
    wp (GrantVerifier.verifyAndConsume pk grantJson config grant action uuid generation parameters
        wallNow monotonicNow)
      (fun consumed l' => l'.Held presented floor ∧ consumed.nonce = grant.claims.nonce ∧
        l.state.consumed.get (hex grant.claims.nonce.val) = none ∧
        ∃ f ∈ l'.file, (f.consumed.get (hex grant.claims.nonce.val)).isSome)
      (fun _ l' => l'.Held presented floor) l := by
  unfold GrantVerifier.verifyAndConsume
  simp only [wp_bind, wp_get, wp_ofExcept]
  refine ⟨fun _ hok => ?_, fun _ _ => hl⟩
  have hmem : grant ∈ presented := hpresented (by rw [hok]; rfl)
  exact wp_mono (GrantLedger.wp_consume hmem hl)
    (fun _ l' h => ⟨h.1, rfl, h.2.1, h.2.2⟩) fun _ _ h => h

theorem held_present {presented presented' : List HelperGrant} {l : GrantLedger}
    (hl : l.Held presented floor) (hsub : presented ⊆ presented') : l.Held presented' floor :=
  ⟨hl.state.mono hsub, fun f hf => ⟨(hl.file f hf).1.mono hsub, (hl.file f hf).2⟩, hl.floor⟩

theorem Single.accept (hs : h.Single floor) (config : Config pk) (grant : HelperGrant)
    (action : GrantAction) (uuid : String) (generation : UInt64) (parameters : GrantParameters)
    (wallNow monotonicNow : UInt64) (persists : List PersistOutcome) :
    let m := GrantVerifier.verifyAndConsume pk grantJson config grant action uuid generation
      parameters wallNow monotonicNow
    let l := { h.ledger with persists := persists }
    Single floor { h with
      ledger := m.after l
      accepted := match m.result l with
        | .ok consumed => consumed.nonce :: h.accepted
        | .error _ => h.accepted
      presented :=
        if (verify pk grantJson config l.state grant action uuid generation parameters wallNow
          monotonicNow).isOk then grant :: h.presented else h.presented } := by
  intro m l
  set passes := (verify pk grantJson config l.state grant action uuid generation parameters wallNow
    monotonicNow).isOk with hpasses
  set presented := if passes then grant :: h.presented else h.presented with hpresented
  have hmem : passes = true → grant ∈ presented := by
    intro hp
    rw [hpresented, if_pos hp]
    exact List.mem_cons_self
  have hsub : h.presented ⊆ presented := by
    rw [hpresented]
    split_ifs
    · exact List.subset_cons_self _ _
    · exact List.Subset.refl _
  have hheld : l.Held presented floor := held_present (held_persists hs.held persists) hsub
  have hfloor := (wp_iff m _ _ l).mp (wp_verifyAndConsume hmem hheld)
  have hfile := (wp_iff m _ _ l).mp (wp_verifyAndConsume hmem (held_self hheld))
  have hstored : ∀ nonce ∈ h.accepted, (m.after l).Held presented l.file →
      ∃ f ∈ (m.after l).file, (f.consumed.get (hex nonce.val)).isSome := by
    intro nonce hn hl
    exact stored_of_floor hl (hs.stored nonce hn)
  cases hr : m.result l with
  | error e => exact ⟨hfloor.2 e hr, fun nonce hn => hstored nonce hn (hfile.2 e hr), hs.nodup⟩
  | ok consumed =>
    obtain ⟨hheld', hnonce, hnew, hdisk⟩ := hfloor.1 consumed hr
    refine ⟨hheld', fun nonce hn => ?_, List.nodup_cons.mpr ⟨fun hn => ?_, hs.nodup⟩⟩
    · rcases List.mem_cons.mp hn with rfl | hn
      · rw [hnonce]
        exact hdisk
      · exact hstored nonce hn (hfile.1 consumed hr).1
    · obtain ⟨f, hf, hsome⟩ := hs.stored _ hn
      obtain ⟨o, ho⟩ := Option.isSome_iff_exists.mp hsome
      obtain ⟨o', ho', -⟩ := (hs.held.file f hf).2.consumed ho
      rw [hnonce, show h.ledger.state.consumed.get (hex grant.claims.nonce.val) = none from hnew]
        at ho'
      cases ho'

theorem Single.step (hs : h.Single floor) (s : GrantStep pk) :
    (h.step pk grantJson s).Single floor := by
  cases s with
  | recordResult consumed identity outcome persists =>
    exact hs.call (fun _ => GrantLedger.preserves_record _ _) persists
  | recordFailure consumed identity outcome persists =>
    exact hs.call (fun _ => GrantLedger.preserves_record _ _) persists
  | armEffect consumed persists =>
    exact hs.call (fun _ => GrantLedger.preserves_markOutcomeUnknown _ _ _) persists
  | armEffectTarget consumed receipt persists =>
    exact hs.call (fun _ => GrantLedger.preserves_markOutcomeUnknown _ _ _) persists
  | reconcileUnknown observe persists =>
    exact hs.call (fun _ => GrantLedger.preserves_reconcileUnknown observe) persists
  | restart persists => exact hs.after (fun _ => GrantLedger.preserves_openLedger) _ persists
  | verifyAndConsume config grant action uuid generation parameters wallNow monotonicNow persists =>
    by_cases hrunning : h.running
    · simp only [GrantHost.step, if_pos hrunning]
      exact hs.accept config grant action uuid generation parameters wallNow monotonicNow persists
    · simpa only [GrantHost.step, if_neg hrunning] using hs

theorem Single.run (hs : h.Single floor) (steps : List (GrantStep pk)) :
    (h.run pk grantJson steps).Single floor := by
  induction steps generalizing h with
  | nil => exact hs
  | cons s steps ih => exact ih (hs.step s)

theorem run_append (steps steps' : List (GrantStep pk)) :
    h.run pk grantJson (steps ++ steps') = (h.run pk grantJson steps).run pk grantJson steps' :=
  List.foldl_append

end Verifier

def storedResult (h : GrantHost) (requestId : String) : Option GrantResult :=
  h.ledger.file.bind (·.results.get requestId)

theorem result_refers {s : LedgerState}
    (hs : s.Sound presented) {requestId : String} {result : GrantResult}
    (hresult : s.results.get requestId = some result) :
    result.requestId = requestId ∧ s.consumed.contains (hex result.nonce.val) = true ∧
      ∃ grant ∈ presented, grant.claims.nonce = result.nonce ∧
        grant.claims.requestId = requestId := by
  obtain ⟨hid, operation, hoperation, hrequest⟩ := hs.results hresult
  obtain ⟨hkey, grant, hgrant, hclaims⟩ := hs.consumed hoperation
  refine ⟨hid, ?_, grant, hgrant, ?_, by rw [hclaims, hrequest]⟩
  · rw [OrdMap.contains, hoperation]
    rfl
  · rw [hclaims, hex_inj hkey]

/-- In every run of the verifier, whatever writes fail and however often it restarts: a nonce is
accepted at most once, a result on disk is never replaced by another one, and every result, in
memory or on disk, has its nonce noted beside it, by a grant for the same request. -/
theorem grants_single_use (pk : Packages) (grantJson : HelperGrant → Option Bytes) :
    (∀ steps, (new.run pk grantJson steps).accepted.Nodup) ∧
    (∀ steps steps' requestId result,
      (new.run pk grantJson steps).storedResult requestId = some result →
      (new.run pk grantJson (steps ++ steps')).storedResult requestId = some result) ∧
    (∀ steps state requestId result, let h := new.run pk grantJson steps
      (state = h.ledger.state ∨ h.ledger.file = some state) →
      state.results.get requestId = some result →
      result.requestId = requestId ∧ state.consumed.contains (hex result.nonce.val) = true ∧
        ∃ grant ∈ h.presented, grant.claims.nonce = result.nonce ∧
          grant.claims.requestId = requestId) := by
  refine ⟨fun steps => (single_new.run steps).nodup, ?_, ?_⟩
  · intro steps steps' requestId result hstored
    have hs : (new.run pk grantJson steps).Single none := single_new.run steps
    have hself : (new.run pk grantJson steps).Single (new.run pk grantJson steps).ledger.file :=
      ⟨held_self hs.held, hs.stored, hs.nodup⟩
    obtain ⟨f, hf, hresult⟩ := Option.bind_eq_some_iff.mp hstored
    obtain ⟨f', hf', hle⟩ := (hself.run steps').held.floor f hf
    rw [run_append, storedResult, Option.mem_def.mp hf']
    exact hle.results hresult
  · intro steps state requestId result h hstate hresult
    have hs : h.Single none := single_new.run steps
    rcases hstate with rfl | hfile
    · exact result_refers hs.held.state hresult
    · exact result_refers (hs.held.file state hfile).1 hresult

end GrantHost
end Ferrocrate.Netd
