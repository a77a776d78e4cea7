import Ferrocrate.Witness.MerkleConsistency

/-! Inclusion proofs of `witness/merkle.rs`. A path of siblings pins the leaf at the index
modulo the width of the tree; the size a proof claims for its tree is never checked. -/
namespace Ferrocrate.Witness.Merkle
open Lib
variable {D : Type}

structure MerkleProof (D : Type) where
  leaf : D
  index : UInt64
  treeSize : UInt64
  siblings : List D
  root : D

def foldSiblings (node : D → D → D) (hash : D) (cursor : Nat) : List D → D
  | [] => hash
  | sibling :: rest =>
    foldSiblings node (if cursor % 2 = 0 then node hash sibling else node sibling hash)
      (cursor / 2) rest

def verify [DecidableEq D] (H : MerkleHash D) (proof : MerkleProof D) : Except MerkleError Unit :=
  if proof.treeSize = 0 ∨ proof.treeSize ≤ proof.index then .error .indexOutOfRange
  else if proof.siblings.length > maxProofDepth then .error .proofTooDeep
  else if foldSiblings H.nodeHash (H.leafHash proof.leaf) proof.index.toNat proof.siblings
      = proof.root then .ok ()
  else .error .rootMismatch

theorem verify_ok_iff [DecidableEq D] (H : MerkleHash D) (p : MerkleProof D) :
    verify H p = .ok () ↔ p.index < p.treeSize ∧ p.siblings.length ≤ maxProofDepth ∧
      foldSiblings H.nodeHash (H.leafHash p.leaf) p.index.toNat p.siblings = p.root := by
  rw [verify, Except.ite_error_eq_ok, Except.ite_error_eq_ok, not_or, not_lt]
  have hsize : (¬p.treeSize = 0 ∧ ¬p.treeSize ≤ p.index) ↔ p.index < p.treeSize := by
    rw [UInt64.not_le]
    refine ⟨fun h => h.2, fun h => ⟨?_, h⟩⟩
    rintro hzero
    rw [hzero] at h
    exact absurd h UInt64.not_lt_zero
  rw [hsize]
  split <;> simp_all

theorem foldSiblings_append_singleton (node : D → D → D) (hash : D) (cursor : Nat)
    (siblings : List D) (top : D) :
    foldSiblings node hash cursor (siblings ++ [top])
      = if cursor / 2 ^ siblings.length % 2 = 0
        then node (foldSiblings node hash cursor siblings) top
        else node top (foldSiblings node hash cursor siblings) := by
  induction siblings generalizing hash cursor with
  | nil => simp [foldSiblings]
  | cons s siblings ih =>
    rw [List.cons_append, foldSiblings, ih, foldSiblings, List.length_cons, Nat.pow_succ,
      Nat.mul_comm, Nat.div_div_eq_div_mul]

theorem mod_two_pow_succ (i d : Nat) : i % 2 ^ (d + 1) = i % 2 ^ d + 2 ^ d * (i / 2 ^ d % 2) := by
  rw [Nat.pow_succ, Nat.mod_mul]

theorem leaves_node_getElem? {d : Nat} {l r : HashTree D} (hl : l.Perfect d) (i : Nat) :
    (HashTree.node l r).leaves[i % 2 ^ (d + 1)]?
      = if i / 2 ^ d % 2 = 0 then l.leaves[i % 2 ^ d]? else r.leaves[i % 2 ^ d]? := by
  have hlen := hl.length_leaves
  have hlt := Nat.mod_lt i (Nat.two_pow_pos d)
  have hbit := Nat.mod_two_eq_zero_or_one (i / 2 ^ d)
  rw [HashTree.leaves, mod_two_pow_succ]
  split
  · next h0 => rw [h0, Nat.mul_zero, Nat.add_zero, List.getElem?_append_left (by omega)]
  · next h0 =>
    rw [hbit.resolve_left h0, Nat.mul_one, List.getElem?_append_right (by omega), hlen,
      Nat.add_sub_cancel_right]

theorem leaf_of_foldSiblings (H : MerkleHash D) (hH : H.Ideal) {d : Nat} {t : HashTree D}
    (ht : t.Perfect d) (x : D) (i : Nat) (siblings : List D)
    (h : foldSiblings H.nodeHash (H.leafHash x) i siblings = t.eval H.leafHash H.nodeHash) :
    siblings.length = d ∧ t.leaves[i % 2 ^ d]? = some x := by
  induction siblings using List.reverseRecOn generalizing t d with
  | nil =>
    cases t with
    | node l r => exact absurd h (hH.disjoint _ _ _)
    | leaf a =>
      cases d with
      | succ d => exact ht.elim
      | zero =>
        obtain rfl := hH.leaf_inj h
        exact ⟨rfl, by simp [HashTree.leaves, Nat.mod_one]⟩
  | append_singleton siblings top ih =>
    rw [foldSiblings_append_singleton] at h
    cases t with
    | leaf a =>
      split at h
      · exact absurd h.symm (hH.disjoint _ _ _)
      · exact absurd h.symm (hH.disjoint _ _ _)
    | node l r =>
      cases d with
      | zero => exact ht.elim
      | succ d =>
        rw [leaves_node_getElem? ht.1, List.length_append, List.length_singleton]
        split at h
        · next h0 =>
          obtain ⟨hlen, hleaf⟩ := ih ht.1 (hH.node_inj _ _ _ _ h).1
          rw [hlen] at h0
          rw [if_pos h0, hlen]
          exact ⟨rfl, hleaf⟩
        · next h0 =>
          obtain ⟨hlen, hleaf⟩ := ih ht.2 (hH.node_inj _ _ _ _ h).2
          rw [hlen] at h0
          rw [if_neg h0, hlen]
          exact ⟨rfl, hleaf⟩

theorem exists_siblings (H : MerkleHash D) {d : Nat} {t : HashTree D} (ht : t.Perfect d) (i : Nat) :
    ∃ x siblings, siblings.length = d ∧
      foldSiblings H.nodeHash (H.leafHash x) i siblings = t.eval H.leafHash H.nodeHash := by
  induction t generalizing d with
  | leaf a =>
    cases d with
    | zero => exact ⟨a, [], rfl, rfl⟩
    | succ d => exact ht.elim
  | node l r ihl ihr =>
    cases d with
    | zero => exact ht.elim
    | succ d =>
      by_cases h0 : i / 2 ^ d % 2 = 0
      · obtain ⟨x, siblings, hlen, hx⟩ := ihl ht.1
        refine ⟨x, siblings ++ [r.eval H.leafHash H.nodeHash], by simp [hlen], ?_⟩
        rw [foldSiblings_append_singleton, hlen, if_pos h0, hx, HashTree.eval]
      · obtain ⟨x, siblings, hlen, hx⟩ := ihr ht.2
        refine ⟨x, siblings ++ [l.eval H.leafHash H.nodeHash], by simp [hlen], ?_⟩
        rw [foldSiblings_append_singleton, hlen, if_neg h0, hx, HashTree.eval]

/-- For a log and a claimed size, accepted proofs against the root of the log are sound
exactly when the claimed size is not larger than the log. -/
theorem inclusion_sound_iff [DecidableEq D] (H : MerkleHash D) (hH : H.Ideal) (leaves : List D)
    (hne : leaves ≠ []) (hmax : leaves.length ≤ maxLeaves) (treeSize : UInt64) :
    (∀ p : MerkleProof D, p.treeSize = treeSize → root H leaves = .ok p.root → verify H p = .ok () →
      p.index.toNat < leaves.length ∧ leaves[p.index.toNat]? = some p.leaf) ↔
    treeSize.toNat ≤ leaves.length := by
  obtain ⟨t, d, htree, hperfect, hd⟩ := exists_tree leaves hne hmax
  have hroot := root_eq_eval H hmax htree
  obtain ⟨post, hleaves, -⟩ := tree_leaves htree
  have hwidth : leaves.length ≤ 2 ^ d := by
    rw [← hperfect.length_leaves, hleaves, List.length_append]
    omega
  constructor
  · intro hsound
    by_contra hlarge
    -- the index right behind the log has a path, and the claimed size lets it pass
    have hindex : (UInt64.ofNat leaves.length).toNat = leaves.length := by
      rw [UInt64.toNat_ofNat']
      simp only [maxLeaves] at hmax
      omega
    obtain ⟨x, siblings, hlen, hx⟩ := exists_siblings H hperfect leaves.length
    have hp := hsound ⟨x, UInt64.ofNat leaves.length, treeSize, siblings,
      t.eval H.leafHash H.nodeHash⟩ rfl hroot (by
        rw [verify_ok_iff, UInt64.lt_iff_toNat_lt, hindex]
        exact ⟨not_le.mp hlarge, by simp only [maxProofDepth]; omega, hx⟩)
    rw [hindex] at hp
    exact absurd hp.1 (lt_irrefl _)
  · rintro hsize p rfl hp hok
    obtain ⟨hlt, -, hfold⟩ := (verify_ok_iff H p).mp hok
    rw [hroot] at hp
    rw [← Except.ok.inj hp] at hfold
    obtain ⟨-, hleaf⟩ := leaf_of_foldSiblings H hH hperfect _ _ _ hfold
    have hin : p.index.toNat < leaves.length := by
      rw [UInt64.lt_iff_toNat_lt] at hlt
      omega
    rw [Nat.mod_eq_of_lt (by omega), hleaves, List.getElem?_append_left hin] at hleaf
    exact ⟨hin, hleaf⟩

def overlongProof : MerkleProof (HashTree Nat) where
  leaf := .leaf 5
  index := 7
  treeSize := 8
  siblings := []
  root := symbolicHash.leafHash (.leaf 5)

/-- The last leaf of an odd log stands next to itself. -/
def lastOfThree : MerkleProof (HashTree Nat) :=
  let left := symbolicHash.nodeHash (symbolicHash.leafHash (.leaf 5))
    (symbolicHash.leafHash (.leaf 6))
  let last := symbolicHash.leafHash (.leaf 7)
  ⟨.leaf 7, 2, 3, [last, left], symbolicHash.nodeHash left (symbolicHash.nodeHash last last)⟩

theorem inclusion_sound_iff_symbolic :
    verify symbolicHash lastOfThree = .ok () ∧
      [HashTree.leaf 5, .leaf 6, .leaf 7][lastOfThree.index.toNat]? = some lastOfThree.leaf := by
  have hok : verify symbolicHash lastOfThree = .ok () := by decide +kernel
  have hroot : root symbolicHash [.leaf 5, .leaf 6, .leaf 7] = .ok lastOfThree.root := by
    simp [root, checkedLeaves, maxLeaves, climb, nextLevel, lastOfThree, bind, Except.bind]
  refine ⟨hok, ?_⟩
  exact ((inclusion_sound_iff symbolicHash symbolicHash_ideal [.leaf 5, .leaf 6, .leaf 7] (by simp)
    (by simp [maxLeaves]) 3).mpr (by decide) _ rfl hroot hok).2

theorem overlong_proof_accepted :
    symbolicHash.Ideal ∧ root symbolicHash [.leaf 5] = .ok overlongProof.root ∧
      verify symbolicHash overlongProof = .ok () ∧
      ¬overlongProof.index.toNat < [HashTree.leaf 5].length := by
  refine ⟨symbolicHash_ideal, ?_, ?_⟩
  · simp [root, checkedLeaves, maxLeaves, climb, overlongProof, bind, Except.bind]
  · decide +kernel

end Ferrocrate.Witness.Merkle
