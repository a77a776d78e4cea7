import Ferrocrate.Witness.MerkleInclusion

/-! The prover of `witness/merkle.rs`: what `prove` returns for an index of the log is a proof
that `verify` accepts. -/
namespace Ferrocrate.Witness.Merkle
open Lib
variable {D : Type}

def siblingAt (level : List D) (cursor : Nat) : Option D :=
  if cursor % 2 = 0 then
    level[cursor]?.map fun node => level[cursor + 1]?.getD node
  else level[cursor - 1]?

def provePath (node : D → D → D) (level : List D) (cursor : Nat) (siblings : List D) :
    Option (Except MerkleError (List D × List D)) :=
  if 1 < level.length then
    match siblingAt level cursor with
    | none => none
    | some sibling =>
      if (siblings ++ [sibling]).length > maxProofDepth then some (.error .proofTooDeep)
      else provePath node (nextLevel node level) (cursor / 2) (siblings ++ [sibling])
  else some (.ok (siblings, level))
termination_by level.length
decreasing_by
  rw [length_nextLevel]
  omega

def prove (H : MerkleHash D) (leaves : List D) (index : Nat) :
    Option (Except MerkleError (MerkleProof D)) :=
  match checkedLeaves leaves with
  | .error e => some (.error e)
  | .ok () =>
    if leaves.length ≤ index then some (.error .indexOutOfRange)
    else
      match provePath H.nodeHash (leaves.map H.leafHash) index [] with
      | none => none
      | some (.error e) => some (.error e)
      | some (.ok (siblings, level)) =>
        match leaves[index]?, level[0]? with
        | some leaf, some root =>
          some (.ok ⟨leaf, .ofNat index, .ofNat leaves.length, siblings, root⟩)
        | _, _ => none

theorem nextLevel_siblingAt (node : D → D → D) {level : List D} {cursor : Nat} {hash : D}
    (h : level[cursor]? = some hash) :
    ∃ sibling, siblingAt level cursor = some sibling ∧
      (nextLevel node level)[cursor / 2]?
        = some (if cursor % 2 = 0 then node hash sibling else node sibling hash) := by
  induction level using nextLevel.induct generalizing cursor with
  | case1 => cases h
  | case2 x =>
    obtain _ | cursor := cursor
    · exact ⟨x, rfl, by rw [← Option.some.inj h]; rfl⟩
    · cases h
  | case3 x y rest ih =>
    obtain _ | _ | cursor := cursor
    · exact ⟨y, rfl, by rw [← Option.some.inj h]; rfl⟩
    · exact ⟨x, rfl, by rw [← Option.some.inj h]; rfl⟩
    · obtain ⟨sibling, hsibling, hnext⟩ := ih h
      have hhalf : (cursor + 2) / 2 = cursor / 2 + 1 := by omega
      have hside : (cursor + 2) % 2 = cursor % 2 := by omega
      refine ⟨sibling, ?_, ?_⟩
      · rw [← hsibling, siblingAt, siblingAt, hside]
        by_cases heven : cursor % 2 = 0
        · rw [if_pos heven, if_pos heven]
          rfl
        · have hpos : cursor + 2 - 1 = (cursor - 1) + 2 := by omega
          rw [if_neg heven, if_neg heven, hpos]
          rfl
      · rw [nextLevel, hhalf, hside]
        exact hnext

theorem provePath_complete (node : D → D → D) {level : List D} {cursor k : Nat} {hash : D}
    {siblings : List D} (h : level[cursor]? = some hash) (hk : level.length ≤ 2 ^ k)
    (hdepth : siblings.length + k ≤ maxProofDepth) :
    ∃ path, path.length ≤ k ∧
      provePath node level cursor siblings = some (.ok (siblings ++ path, climb node level)) ∧
      climb node level = [foldSiblings node hash cursor path] := by
  induction level using climb.induct node generalizing cursor k hash siblings with
  | case1 level hlt ih =>
    obtain ⟨sibling, hsibling, hnext⟩ := nextLevel_siblingAt node h
    cases k with
    | zero =>
      rw [Nat.pow_zero] at hk
      omega
    | succ k =>
      have hlen : (nextLevel node level).length ≤ 2 ^ k := by
        rw [length_nextLevel]
        rw [Nat.pow_succ] at hk
        omega
      have hroom : (siblings ++ [sibling]).length + k ≤ maxProofDepth := by
        rw [List.length_append, List.length_singleton]
        omega
      obtain ⟨path, hpath, hprove, hclimb⟩ := ih hnext hlen hroom
      refine ⟨sibling :: path, by simpa using hpath, ?_, ?_⟩
      · rw [provePath, if_pos hlt, hsibling]
        dsimp only
        rw [if_neg (by omega), hprove, climb_of_lt hlt, List.append_assoc, List.singleton_append]
      · rw [climb_of_lt hlt, hclimb, foldSiblings]
  | case2 level hle =>
    have hzero : cursor = 0 := by
      have hin := (List.getElem?_eq_some_iff.mp h).1
      omega
    subst hzero
    refine ⟨[], Nat.zero_le _, ?_, ?_⟩
    · rw [provePath, if_neg hle, climb, if_neg hle, List.append_nil]
    · rw [climb, if_neg hle, foldSiblings]
      cases level with
      | nil => cases h
      | cons x rest =>
        cases rest with
        | nil => rw [Option.some.inj h]
        | cons y rest => simp at hle

/-- Every index of a log has a proof, and it is accepted. -/
theorem prove_complete [DecidableEq D] (H : MerkleHash D) (leaves : List D) (index : Nat)
    (hmax : leaves.length ≤ maxLeaves) (hindex : index < leaves.length) :
    ∃ p, prove H leaves index = some (.ok p) ∧ leaves[index]? = some p.leaf ∧
      p.index.toNat = index ∧ root H leaves = .ok p.root ∧ p.treeSize.toNat = leaves.length ∧
      p.siblings.length ≤ 20 ∧ verify H p = .ok () := by
  have hne : leaves ≠ [] := by
    rintro rfl
    simp at hindex
  obtain ⟨leaf, hleaf⟩ : ∃ leaf, leaves[index]? = some leaf := ⟨_, List.getElem?_eq_getElem hindex⟩
  have hnode : (leaves.map H.leafHash)[index]? = some (H.leafHash leaf) := by
    rw [List.getElem?_map, hleaf]
    rfl
  obtain ⟨path, hpath, hprove, hclimb⟩ : ∃ path : List D, path.length ≤ 20 ∧
      provePath H.nodeHash (leaves.map H.leafHash) index [] = some (.ok ([] ++ path, _)) ∧ _ :=
    provePath_complete H.nodeHash hnode (by simpa [maxLeaves] using hmax) (by simp [maxProofDepth])
  rw [List.nil_append, hclimb] at hprove
  have hroot : root H leaves = .ok (foldSiblings H.nodeHash (H.leafHash leaf) index path) :=
    (root_ok_iff H hne hmax _).mpr hclimb
  have hindexBack : (UInt64.ofNat index).toNat = index := by
    rw [UInt64.toNat_ofNat']
    simp only [maxLeaves] at hmax
    omega
  have hsizeBack : (UInt64.ofNat leaves.length).toNat = leaves.length := by
    rw [UInt64.toNat_ofNat']
    simp only [maxLeaves] at hmax
    omega
  refine ⟨⟨leaf, .ofNat index, .ofNat leaves.length, path, _⟩, ?_, hleaf, hindexBack, hroot,
    hsizeBack, hpath, ?_⟩
  · rw [prove, checkedLeaves_ok hne hmax]
    dsimp only
    rw [if_neg (by omega), hprove, hleaf]
    rfl
  · rw [verify_ok_iff, UInt64.lt_iff_toNat_lt]
    dsimp only
    rw [hindexBack, hsizeBack]
    exact ⟨hindex, by simp only [maxProofDepth]; omega, rfl⟩

/-- The last leaf of three, whose sibling is the leaf itself. -/
theorem prove_complete_last :
    ∃ p, prove symbolicHash [.leaf 5, .leaf 6, .leaf 7] 2 = some (.ok p) ∧
      [HashTree.leaf 5, .leaf 6, .leaf 7][2]? = some p.leaf ∧ p.index.toNat = 2 ∧
      root symbolicHash [.leaf 5, .leaf 6, .leaf 7] = .ok p.root ∧ p.treeSize.toNat = 3 ∧
      p.siblings.length ≤ 20 ∧ verify symbolicHash p = .ok () :=
  prove_complete symbolicHash [.leaf 5, .leaf 6, .leaf 7] 2 (by simp [maxLeaves]) (by simp)

end Ferrocrate.Witness.Merkle
