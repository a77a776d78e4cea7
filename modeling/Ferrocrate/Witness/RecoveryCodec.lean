import Ferrocrate.Lib.Codec
import Ferrocrate.Lib.Program
import Ferrocrate.Witness.Recovery

/-! The durable form of a recovery recipe (`witness/recovery.rs`): what the decoder accepts is what
the encoder writes, and which recipes it accepts. -/
namespace Ferrocrate.Witness
open Lib Lib.Reader

def WitnessAction.Readable (action : WitnessAction) : Prop :=
  action ≠ .networkDetach ∧ action ≠ .containerStart

namespace RecoveryRecipe

theorem decode_encode_iff (r : RecoveryRecipe) (generation : UInt64) :
    decode (r.encode generation) = some (generation, r) ↔ r.originalAction.Readable := by
  rw [decode_encode, WitnessAction.Readable]
  split
  next h =>
    refine iff_of_false (fun heq => nomatch heq) fun hreadable => ?_
    cases h with
    | inl hdetach => exact hreadable.1 hdetach
    | inr hstart => exact hreadable.2 hstart
  next h => exact iff_of_true rfl (not_or.mp h)

theorem decode_encode_ne_none_iff (r : RecoveryRecipe) (generation : UInt64) :
    decode (r.encode generation) ≠ none ↔ r.originalAction.Readable := by
  rw [← decode_encode_iff r generation, decode_encode]
  split <;> simp

variable {code : UInt8} {action : WitnessAction}

theorem actionFrom_eq_some
    (h : actionFrom code = some action) : action.code = code := by
  unfold actionFrom at h
  split at h <;> cases h <;> rfl

variable {kind : WitnessResourceKind}

theorem resourceKindFrom_eq_some
    (h : resourceKindFrom code = some kind) : kind.code = code := by
  unfold resourceKindFrom at h
  split at h <;> cases h <;> rfl

theorem cleanupFrom_eq_some
    (h : cleanupFrom code = some action) : action.code = code := by
  unfold cleanupFrom at h
  split at h <;> cases h <;> rfl

variable {strategy : RecoveryTruthStrategy}

theorem truthStrategyFrom_eq_some
    (h : truthStrategyFrom code = some strategy) : strategy.code = code := by
  unfold truthStrategyFrom at h
  split at h <;> cases h <;> rfl

theorem forOriginalWithObservation_eq_ok {originalAction action : WitnessAction} {precondition observation : Digest} {generation : UInt64} {handle : Id} {r : RecoveryRecipe}
    (h : forOriginalWithObservation originalAction kind action precondition generation strategy
      observation handle = .ok r) :
    r.originalAction = originalAction ∧ r.resourceKind = kind ∧ r.action = action ∧
      r.preconditionDigest = precondition ∧ r.resourceGeneration = generation ∧
      r.truthStrategy = strategy ∧ r.observationDigest = observation ∧
      r.observationHandle = handle := by
  unfold forOriginalWithObservation at h
  split at h
  · split at h
    · cases h
      exact ⟨rfl, rfl, rfl, rfl, rfl, rfl, rfl, rfl⟩
    · cases h
  · cases h

theorem fields_exact {bytes rest : Bytes} {version originalAction resourceKind action
      truthStrategy : UInt8} {generation resourceGeneration : UInt64}
    {observationDigest preconditionDigest : Digest} {observationHandle : Id}
    (h : fields bytes = .ok ((version, generation, originalAction, resourceKind, action,
      truthStrategy, observationDigest, observationHandle, preconditionDigest,
      resourceGeneration), rest)) :
    bytes = [version] ++ (u64Be generation ++ ([originalAction] ++ ([resourceKind] ++ ([action]
      ++ ([truthStrategy] ++ (observationDigest.val ++ (observationHandle.val
      ++ (preconditionDigest.val ++ (u64Be resourceGeneration ++ rest))))))))) := by
  simp only [fields, Reader.bind_eq_ok] at h
  obtain ⟨_, _, hversion, _, _, hgeneration, _, _, horiginal, _, _, hkind, _, _, haction, _, _,
    hstrategy, _, _, hobservation, _, _, hhandle, _, _, hprecondition, _, _, hresource, hpure⟩ := h
  cases hpure
  rw [u8_exact _ _ _ _ hversion, u64_exact _ _ _ _ hgeneration, u8_exact _ _ _ _ horiginal,
    u8_exact _ _ _ _ hkind, u8_exact _ _ _ _ haction, u8_exact _ _ _ _ hstrategy,
    fixed_exact _ _ _ _ _ hobservation, fixed_exact _ _ _ _ _ hhandle,
    fixed_exact _ _ _ _ _ hprecondition, u64_exact _ _ _ _ hresource]

theorem decode_exact {bytes : Bytes} {generation : UInt64} {r : RecoveryRecipe}
    (h : decode bytes = some (generation, r)) : r.encode generation = bytes := by
  unfold decode at h
  split at h
  · cases h
  next hlength =>
  split at h
  · cases h
  next version _ originalAction kind action strategy observation handle precondition resource rest
      hfields =>
  split at h
  · cases h
  next hversion =>
  simp only [Option.bind_eq_bind, Option.bind_eq_some_iff] at h
  obtain ⟨original, horiginal, kind', hkind, action', haction, strategy', hstrategy, recipe, hrecipe,
    hr⟩ := h
  obtain ⟨rfl, rfl⟩ := Prod.mk.inj (Option.some.inj hr)
  obtain ⟨rfl, rfl, rfl, rfl, rfl, rfl, rfl, rfl⟩ :=
    forOriginalWithObservation_eq_ok (Except.toOption_eq_some hrecipe)
  have hbytes := fields_exact hfields
  have hrest : rest = [] := by
    have hcount := congrArg List.length hbytes
    simp at hcount
    exact List.eq_nil_of_length_eq_zero (by omega)
  rw [hbytes, hrest, List.append_nil, encode, not_not.mp hversion, actionFrom_eq_some horiginal,
    resourceKindFrom_eq_some hkind, cleanupFrom_eq_some haction,
    truthStrategyFrom_eq_some hstrategy]

end RecoveryRecipe
end Ferrocrate.Witness
