import Ferrocrate.Lib.Bytes
import Ferrocrate.Lib.HashTree

/-! The transparency tree of `witness/merkle.rs`: level-by-level roots with an odd last
node paired with itself, and what such a root says about the leaves below it. -/
namespace Ferrocrate.Witness.Merkle
open Lib

inductive MerkleError where
  | empty
  | tooManyLeaves
  | indexOutOfRange
  | proofTooDeep
  | rootMismatch
deriving DecidableEq

def maxLeaves : Nat := 2 ^ 20
def maxProofDepth : Nat := 64

/-- The two hashes of the tree. The digest type is a parameter: the ideal hashes of
`MerkleHash.Ideal` exist over symbolic digests, not over arrays of 32 bytes. -/
structure MerkleHash (D : Type) where
  leafHash : D → D
  nodeHash : D → D → D

structure MerkleHash.Ideal {D : Type} (H : MerkleHash D) : Prop where
  leaf_inj : Function.Injective H.leafHash
  node_inj : ∀ a b c d, H.nodeHash a b = H.nodeHash c d → a = c ∧ b = d
  disjoint : ∀ a b c, H.leafHash a ≠ H.nodeHash b c

variable {D : Type}

def checkedLeaves (leaves : List D) : Except MerkleError Unit :=
  if leaves = [] then .error .empty
  else if leaves.length > maxLeaves then .error .tooManyLeaves
  else .ok ()

def nextLevel (node : D → D → D) : List D → List D
  | [] => []
  | [x] => [node x x]
  | x :: y :: rest => node x y :: nextLevel node rest

theorem length_nextLevel (node : D → D → D) (xs : List D) :
    (nextLevel node xs).length = (xs.length + 1) / 2 := by
  induction xs using nextLevel.induct with
  | case1 => simp [nextLevel]
  | case2 x => simp [nextLevel]
  | case3 x y rest ih => simp only [nextLevel, List.length_cons, ih]; omega

def climb (node : D → D → D) (level : List D) : List D :=
  if 1 < level.length then climb node (nextLevel node level) else level
termination_by level.length
decreasing_by
  rw [length_nextLevel]
  omega

def root (H : MerkleHash D) (leaves : List D) : Except MerkleError D := do
  checkedLeaves leaves
  match climb H.nodeHash (leaves.map H.leafHash) with
  | [] => .error .empty
  | h :: _ => .ok h

variable {node : D → D → D}

theorem climb_of_lt {xs : List D} (h : 1 < xs.length) :
    climb node xs = climb node (nextLevel node xs) := by
  rw [climb, if_pos h]

theorem climb_singleton (node : D → D → D) (x : D) : climb node [x] = [x] := by
  rw [climb, if_neg (by simp)]

theorem climb_eq_singleton (node : D → D → D) (xs : List D) (h : xs ≠ []) :
    ∃ t, climb node xs = [t] := by
  induction xs using climb.induct node with
  | case1 xs hlt ih =>
    rw [climb_of_lt hlt]
    apply ih
    intro hnil
    have hlen := length_nextLevel node xs
    rw [hnil, List.length_nil] at hlen
    omega
  | case2 xs hle =>
    cases xs with
    | nil => exact absurd rfl h
    | cons x rest =>
      cases rest with
      | nil => exact ⟨x, climb_singleton node x⟩
      | cons y rest => simp at hle

theorem nextLevel_map {E : Type} {node' : E → E → E} {f : D → E}
    (hf : ∀ a b, f (node a b) = node' (f a) (f b)) (xs : List D) :
    (nextLevel node xs).map f = nextLevel node' (xs.map f) := by
  induction xs using nextLevel.induct with
  | case1 => simp [nextLevel]
  | case2 x => simp [nextLevel, hf]
  | case3 x y rest ih => simp [nextLevel, hf, ih]

theorem climb_map {E : Type} {node' : E → E → E} {f : D → E}
    (hf : ∀ a b, f (node a b) = node' (f a) (f b)) (xs : List D) :
    (climb node xs).map f = climb node' (xs.map f) := by
  induction xs using climb.induct node with
  | case1 xs hlt ih =>
    rw [climb_of_lt hlt, ih, nextLevel_map hf, ← climb_of_lt]
    simpa using hlt
  | case2 xs hle =>
    rw [climb, if_neg hle, climb, if_neg (by simpa using hle)]

theorem nextLevel_perfect {α : Type} {d : Nat} (xs : List (HashTree α))
    (h : ∀ t ∈ xs, t.Perfect d) : ∀ t ∈ nextLevel HashTree.node xs, t.Perfect (d+1) := by
  induction xs using nextLevel.induct with
  | case1 => simp [nextLevel]
  | case2 x =>
    intro t ht
    have htx : t = .node x x := by simpa [nextLevel] using ht
    subst htx
    exact ⟨h x (by simp), h x (by simp)⟩
  | case3 x y rest ih =>
    intro t ht
    rcases List.mem_cons.mp (by simpa only [nextLevel] using ht) with rfl | ht
    · exact ⟨h x (by simp), h y (by simp)⟩
    · exact ih (fun t ht => h t (by simp [ht])) t ht

theorem climb_perfect {α : Type} {d k : Nat} (xs : List (HashTree α)) (h : ∀ t ∈ xs, t.Perfect d)
    (hk : xs.length ≤ 2 ^ k) : ∃ e ≤ d + k, ∀ t ∈ climb HashTree.node xs, t.Perfect e := by
  induction xs using climb.induct HashTree.node generalizing d k with
  | case1 xs hlt ih =>
    rw [climb_of_lt hlt]
    cases k with
    | zero =>
      rw [Nat.pow_zero] at hk
      omega
    | succ k =>
      rw [Nat.pow_succ] at hk
      obtain ⟨e, he, hp⟩ := ih (nextLevel_perfect xs h) (k := k) (by rw [length_nextLevel]; omega)
      exact ⟨e, by omega, hp⟩
  | case2 xs hle =>
    rw [climb, if_neg hle]
    exact ⟨d, by omega, h⟩

theorem exists_tree (leaves : List D) (h : leaves ≠ []) (hmax : leaves.length ≤ maxLeaves) :
    ∃ (t : HashTree D) (d : Nat), climb HashTree.node (leaves.map .leaf) = [t] ∧
      t.Perfect d ∧ d ≤ 20 := by
  obtain ⟨t, ht⟩ := climb_eq_singleton HashTree.node (leaves.map .leaf) (by simpa using h)
  obtain ⟨d, hd, hp⟩ := climb_perfect (d := 0) (k := 20) (leaves.map HashTree.leaf)
    (by simp [HashTree.Perfect]) (by simpa [maxLeaves] using hmax)
  exact ⟨t, d, ht, hp t (by simp [ht]), by omega⟩

variable {leaves : List D}

theorem checkedLeaves_ok (h : leaves ≠ []) (hl : leaves.length ≤ maxLeaves) :
    checkedLeaves leaves = .ok () := by
  rw [checkedLeaves, if_neg h, if_neg (by omega)]

theorem root_eq_eval (H : MerkleHash D) {t : HashTree D}
    (hl : leaves.length ≤ maxLeaves) (ht : climb HashTree.node (leaves.map .leaf) = [t]) :
    root H leaves = .ok (t.eval H.leafHash H.nodeHash) := by
  have hne : leaves ≠ [] := by
    rintro rfl
    rw [List.map_nil, climb, if_neg (by simp)] at ht
    cases ht
  have hnode : ∀ a b : HashTree D, (HashTree.node a b).eval H.leafHash H.nodeHash
      = H.nodeHash (a.eval H.leafHash H.nodeHash) (b.eval H.leafHash H.nodeHash) := fun _ _ => rfl
  have hmap := climb_map hnode (leaves.map .leaf)
  have hlv : (leaves.map HashTree.leaf).map (HashTree.eval H.leafHash H.nodeHash)
      = leaves.map H.leafHash := by simp [HashTree.eval]
  rw [ht, hlv] at hmap
  simp [root, checkedLeaves_ok hne hl, ← hmap, bind, Except.bind]

def completion (leaves : List D) : List D :=
  (climb (fun a b => a ++ b) (leaves.map fun x => [x])).flatten

theorem completion_eq_leaves {t : HashTree D}
    (ht : climb HashTree.node (leaves.map .leaf) = [t]) : completion leaves = t.leaves := by
  have hnode : ∀ a b : HashTree D, (HashTree.node a b).leaves = a.leaves ++ b.leaves :=
    fun _ _ => rfl
  have hmap := climb_map hnode (leaves.map .leaf)
  have hlv : (leaves.map HashTree.leaf).map HashTree.leaves = leaves.map fun x => [x] := by
    simp [HashTree.leaves]
  rw [ht, hlv] at hmap
  simp [completion, ← hmap]

theorem nextLevel_inj (hn : ∀ a b c d, node a b = node c d → a = c ∧ b = d)
    (xs ys : List D) (hlen : xs.length = ys.length) (h : nextLevel node xs = nextLevel node ys) :
    xs = ys := by
  induction xs using nextLevel.induct generalizing ys with
  | case1 => exact (List.length_eq_zero_iff.mp hlen.symm).symm
  | case2 x =>
    match ys, hlen with
    | [y], _ =>
      simp only [nextLevel, List.cons.injEq, and_true] at h
      rw [(hn _ _ _ _ h).1]
  | case3 x y rest ih =>
    match ys, hlen with
    | a :: b :: ys, hlen =>
      simp only [nextLevel, List.cons.injEq] at h
      obtain ⟨hx, hy⟩ := hn _ _ _ _ h.1
      rw [hx, hy, ih ys (by simpa using hlen) h.2]

theorem climb_inj (hn : ∀ a b c d, node a b = node c d → a = c ∧ b = d)
    (xs ys : List D) (hlen : xs.length = ys.length) (h : climb node xs = climb node ys) :
    xs = ys := by
  induction xs using climb.induct node generalizing ys with
  | case1 xs hlt ih =>
    rw [climb_of_lt hlt, climb_of_lt (show 1 < ys.length from hlen ▸ hlt)] at h
    apply nextLevel_inj hn xs ys hlen
    apply ih _ _ h
    rw [length_nextLevel, length_nextLevel, hlen]
  | case2 xs hle =>
    rwa [climb, if_neg hle, climb, if_neg (hlen ▸ hle)] at h

theorem root_ok_iff (H : MerkleHash D) (h : leaves ≠ [])
    (hl : leaves.length ≤ maxLeaves) (r : D) :
    root H leaves = .ok r ↔ climb H.nodeHash (leaves.map H.leafHash) = [r] := by
  obtain ⟨t, ht⟩ := climb_eq_singleton H.nodeHash (leaves.map H.leafHash) (by simpa using h)
  simp [root, checkedLeaves_ok h hl, ht, bind, Except.bind]

/-- What a root binds: exactly the completed leaf sequence, hence the whole list once its
length is known. -/
theorem root_binds_completion (H : MerkleHash D) (hH : H.Ideal) (leaves₁ leaves₂ : List D)
    (hne₁ : leaves₁ ≠ []) (hmax₁ : leaves₁.length ≤ maxLeaves)
    (hne₂ : leaves₂ ≠ []) (hmax₂ : leaves₂.length ≤ maxLeaves) :
    (root H leaves₁ = root H leaves₂ ↔ completion leaves₁ = completion leaves₂) ∧
    (leaves₁.length = leaves₂.length → root H leaves₁ = root H leaves₂ → leaves₁ = leaves₂) := by
  obtain ⟨s, d, hs, hsp, -⟩ := exists_tree leaves₁ hne₁ hmax₁
  obtain ⟨t, e, ht, htp, -⟩ := exists_tree leaves₂ hne₂ hmax₂
  have hiff : root H leaves₁ = root H leaves₂ ↔ s = t := by
    rw [root_eq_eval H hmax₁ hs, root_eq_eval H hmax₂ ht]
    constructor
    · intro h
      exact HashTree.eval_injective hH.leaf_inj hH.node_inj hH.disjoint s t (Except.ok.inj h)
    · rintro rfl
      rfl
  refine ⟨?_, ?_⟩
  · rw [hiff, completion_eq_leaves hs, completion_eq_leaves ht]
    constructor
    · rintro rfl
      rfl
    · exact hsp.eq_of_leaves htp
  · intro hlen h
    have hst : s = t := hiff.mp h
    have hmap : leaves₁.map HashTree.leaf = leaves₂.map HashTree.leaf := by
      have hinj : ∀ a b c d : HashTree D, HashTree.node a b = HashTree.node c d → a = c ∧ b = d := by
        rintro a b c d ⟨⟩
        exact ⟨rfl, rfl⟩
      apply climb_inj hinj
      · simpa using hlen
      · rw [hs, ht, hst]
    exact List.map_injective_iff.mpr (fun a b h => HashTree.leaf.inj h) hmap

def symbolicHash : MerkleHash (HashTree Nat) where
  leafHash t := .node (.leaf 0) t
  nodeHash l r := .node (.leaf 1) (.node l r)

theorem symbolicHash_ideal : symbolicHash.Ideal where
  leaf_inj := fun _ _ h => (HashTree.node.inj h).2
  node_inj := fun _ _ _ _ h => HashTree.node.inj (HashTree.node.inj h).2
  disjoint := fun _ _ _ h => by cases h

theorem root_binds_completion_symbolic :
    (root symbolicHash [.leaf 5, .leaf 6] = root symbolicHash [.leaf 5, .leaf 7] ↔
      completion [HashTree.leaf 5, .leaf 6] = completion [HashTree.leaf 5, .leaf 7]) ∧
    (root symbolicHash [.leaf 5, .leaf 6] = root symbolicHash [.leaf 5, .leaf 7] →
      [HashTree.leaf 5, .leaf 6] = [HashTree.leaf 5, .leaf 7]) := by
  have h := root_binds_completion symbolicHash symbolicHash_ideal
    [.leaf 5, .leaf 6] [.leaf 5, .leaf 7]
    (by simp) (by simp [maxLeaves]) (by simp) (by simp [maxLeaves])
  exact ⟨h.1, h.2 rfl⟩

/-- A log of three leaves and the log with its last leaf written twice have one root. -/
theorem root_collides_on_doubled_last :
    symbolicHash.Ideal ∧
    root symbolicHash [.leaf 5, .leaf 6, .leaf 7]
      = root symbolicHash [.leaf 5, .leaf 6, .leaf 7, .leaf 7] ∧
    [HashTree.leaf 5, .leaf 6, .leaf 7] ≠ [HashTree.leaf 5, .leaf 6, .leaf 7, .leaf 7] := by
  refine ⟨symbolicHash_ideal, ?_, by simp⟩
  simp [root, checkedLeaves, maxLeaves, climb, nextLevel]

end Ferrocrate.Witness.Merkle
