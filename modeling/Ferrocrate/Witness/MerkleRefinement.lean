import Ferrocrate.Witness.MerkleConsistency

/-! The frontier of `witness/merkle.rs` against its level-by-level root: the binary counter
reaches the root of every log, and its consistency proofs are accepted. -/
namespace Ferrocrate.Witness.Merkle
open Lib
variable {D : Type}

def frontierFromLeaves (H : MerkleHash D) (leaves : List D) :
    Except MerkleError (List (Option D)) := do
  checkedLeaves leaves
  leaves.foldlM (appendFrontier H) []

def frontierConsistencyProof (H : MerkleHash D) (leaves : List D) (oldSize : Nat) :
    Except MerkleError (MerkleFrontierConsistencyProof D) := do
  checkedLeaves leaves
  if oldSize = 0 ∨ oldSize > leaves.length then
    throw .indexOutOfRange
  let oldFrontier ← frontierFromLeaves H (leaves.take oldSize)
  let oldRoot ← root H (leaves.take oldSize)
  let newRoot ← root H leaves
  return {
    oldSize := UInt64.ofNat oldSize
    newSize := UInt64.ofNat leaves.length
    oldFrontier := oldFrontier
    appendedLeaves := leaves.drop oldSize
    oldRoot := oldRoot
    newRoot := newRoot }

theorem toNat_size {n : Nat} (h : n ≤ maxLeaves) : (UInt64.ofNat n).toNat = n := by
  have hbound : maxLeaves < UInt64.size := by decide
  exact UInt64.toNat_ofNat_of_lt (by omega)

theorem two_pow_countP_le (fs : List (Option D)) :
    2 ^ fs.countP Option.isSome ≤ occupiedSize fs + 1 := by
  induction fs with
  | nil => simp [occupiedSize]
  | cons f fs ih =>
    cases f with
    | none =>
      rw [List.countP_cons_of_neg (by simp), occupiedSize]
      omega
    | some p =>
      rw [List.countP_cons_of_pos (by rfl), occupiedSize, Nat.pow_succ]
      omega

variable {fs : List (Option D)}

theorem Represents.countP_lt {node : D → D → D} {xs : List D}
    (h : Represents node fs xs) (hmax : xs.length ≤ maxLeaves) :
    fs.countP Option.isSome < maxProofDepth := by
  have hpow := two_pow_countP_le fs
  rw [← h.length] at hpow
  have hbound : maxLeaves + 1 < 2 ^ maxProofDepth := by decide
  exact (Nat.pow_lt_pow_iff_right (by omega)).mp
    (Nat.lt_of_le_of_lt hpow (Nat.lt_of_le_of_lt (Nat.succ_le_succ hmax) hbound))

theorem foldlM_appendFrontier_ok (H : MerkleHash D) {appended leaves : List D} (h : Represents H.nodeHash fs (leaves.map H.leafHash))
    (hmax : leaves.length + appended.length ≤ maxLeaves) :
    ∃ gs, appended.foldlM (appendFrontier H) fs = .ok gs := by
  induction appended generalizing leaves fs with
  | nil => exact ⟨fs, rfl⟩
  | cons leaf appended ih =>
    rw [List.length_cons] at hmax
    have hcount := h.countP_lt (by rw [List.length_map]; omega)
    obtain ⟨mid, hm⟩ : ∃ mid, appendFrontier H fs leaf = .ok mid :=
      appendAt_ok_of_countP (H.leafHash leaf) (by omega)
    have hmid : Represents H.nodeHash mid ((leaves ++ [leaf]).map H.leafHash) := by
      simpa using h.appendAt hm
    obtain ⟨gs, hg⟩ := ih hmid (by rw [List.length_append, List.length_singleton]; omega)
    exact ⟨gs, by rw [List.foldlM_cons, hm]; exact hg⟩

variable {leaves : List D}

theorem Represents.frontierRoot (H : MerkleHash D)
    (h : Represents H.nodeHash fs (leaves.map H.leafHash)) (hl : fs.length ≤ maxProofDepth)
    (hne : leaves ≠ []) (hmax : leaves.length ≤ maxLeaves) :
    ∃ r, Merkle.frontierRoot H fs (UInt64.ofNat leaves.length) = .ok r ∧
      root H leaves = .ok r := by
  obtain ⟨r, l, hf, hc⟩ := foldPeaks_none h (by simpa using hne) 0
  have hpos := List.length_pos_of_ne_nil hne
  refine ⟨r, ?_, ?_⟩
  · rw [frontierRoot_ok_iff H hl, toNat_size hmax]
    exact ⟨hpos, hmax, l, hf⟩
  · rw [root, checkedLeaves_ok hne hmax, hc]
    rfl

theorem frontierFromLeaves_spec (H : MerkleHash D) (hne : leaves ≠ [])
    (hmax : leaves.length ≤ maxLeaves) :
    ∃ fs, frontierFromLeaves H leaves = .ok fs ∧
      Represents H.nodeHash fs (leaves.map H.leafHash) ∧ fs.length ≤ maxProofDepth := by
  have hnil : Represents H.nodeHash [] (([] : List D).map H.leafHash) := rfl
  obtain ⟨fs, hf⟩ := foldlM_appendFrontier_ok H hnil (by simpa using hmax)
  obtain ⟨hr, hl⟩ := foldlM_appendFrontier H hnil (Nat.zero_le _) hf
  refine ⟨fs, ?_, by simpa using hr, hl⟩
  rw [frontierFromLeaves, checkedLeaves_ok hne hmax]
  exact hf

theorem frontierConsistencyProof_eq {H : MerkleHash D} {k : Nat}
    (hmax : leaves.length ≤ maxLeaves) (hk : 1 ≤ k) (hkl : k ≤ leaves.length)
    {old : List (Option D)} {oldRoot newRoot : D}
    (hold : frontierFromLeaves H (leaves.take k) = .ok old)
    (hroot : root H (leaves.take k) = .ok oldRoot) (hroot' : root H leaves = .ok newRoot) :
    frontierConsistencyProof H leaves k = .ok ⟨UInt64.ofNat k, UInt64.ofNat leaves.length, old,
      leaves.drop k, oldRoot, newRoot⟩ := by
  have hne : leaves ≠ [] := List.ne_nil_of_length_pos (by omega)
  rw [frontierConsistencyProof, checkedLeaves_ok hne hmax, if_neg (by omega), hold, hroot, hroot']
  rfl

/-- The frontier of every non-empty front of a log folds to the level-by-level root of that
front, and the consistency proof made from it is accepted. -/
theorem frontier_agrees_with_root [DecidableEq D] (H : MerkleHash D) {leaves : List D} {k : Nat}
    (hmax : leaves.length ≤ maxLeaves) (hk : 1 ≤ k) (hkl : k ≤ leaves.length) :
    (∃ frontier r, frontierFromLeaves H (leaves.take k) = .ok frontier ∧
      frontierRoot H frontier (UInt64.ofNat k) = .ok r ∧ root H (leaves.take k) = .ok r) ∧
    ∃ proof, frontierConsistencyProof H leaves k = .ok proof ∧
      verifyFrontierConsistency H proof = .ok () := by
  have hlen : (leaves.take k).length = k := by rw [List.length_take]; omega
  have hne : leaves.take k ≠ [] := List.ne_nil_of_length_pos (by omega)
  have hall : leaves ≠ [] := List.ne_nil_of_length_pos (by omega)
  obtain ⟨old, hold, hr, hl⟩ := frontierFromLeaves_spec H hne (by omega)
  obtain ⟨oldRoot, hfold, hroot⟩ := hr.frontierRoot H hl hne (by omega)
  rw [hlen] at hfold
  refine ⟨⟨old, oldRoot, hold, hfold, hroot⟩, ?_⟩
  have hsplit : (leaves.take k).length + (leaves.drop k).length ≤ maxLeaves := by
    rw [← List.length_append, List.take_append_drop]
    exact hmax
  obtain ⟨new, hnew⟩ := foldlM_appendFrontier_ok H hr hsplit
  obtain ⟨hr', hl'⟩ := foldlM_appendFrontier H hr hl hnew
  rw [List.take_append_drop] at hr'
  obtain ⟨newRoot, hfold', hroot'⟩ := hr'.frontierRoot H hl' hall hmax
  refine ⟨_, frontierConsistencyProof_eq hmax hk hkl hold hroot hroot', ?_⟩
  rw [verifyFrontierConsistency_ok_iff]
  refine ⟨⟨?_, ?_, ?_, hl⟩, hfold, new, hnew, hfold'⟩
  · rw [toNat_size (by omega)]
    exact hk
  · rw [toNat_size hmax]
    exact hmax
  · rw [toNat_size hmax, toNat_size (by omega), List.length_drop]
    omega

theorem frontier_agrees_with_root_three :
    (∃ frontier r, frontierFromLeaves symbolicHash ([.leaf 5, .leaf 6, .leaf 7].take 2)
        = .ok frontier ∧ frontierRoot symbolicHash frontier (UInt64.ofNat 2) = .ok r ∧
        root symbolicHash ([.leaf 5, .leaf 6, .leaf 7].take 2) = .ok r) ∧
      ∃ proof, frontierConsistencyProof symbolicHash [.leaf 5, .leaf 6, .leaf 7] 2 = .ok proof ∧
        verifyFrontierConsistency symbolicHash proof = .ok () :=
  frontier_agrees_with_root symbolicHash (by decide) (by decide) (by decide)

end Ferrocrate.Witness.Merkle
