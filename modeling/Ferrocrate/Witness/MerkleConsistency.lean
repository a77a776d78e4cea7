import Mathlib.Data.Fintype.EquivFin
import Ferrocrate.Lib.Program
import Ferrocrate.Witness.MerkleFrontier

/-! When an accepted consistency proof is sound. The check never compares the occupied
levels of the presented frontier with the binary digits of the old size. -/
namespace Ferrocrate.Witness.Merkle
open Lib
variable {D : Type}

theorem verifyFrontierConsistency_ok_iff [DecidableEq D] (H : MerkleHash D)
    (p : MerkleFrontierConsistencyProof D) :
    verifyFrontierConsistency H p = .ok () ↔
      (0 < p.oldSize.toNat ∧ p.newSize.toNat ≤ maxLeaves ∧
        p.newSize.toNat = p.oldSize.toNat + p.appendedLeaves.length ∧
        p.oldFrontier.length ≤ maxProofDepth) ∧
      frontierRoot H p.oldFrontier p.oldSize = .ok p.oldRoot ∧
      ∃ frontier, p.appendedLeaves.foldlM (appendFrontier H) p.oldFrontier = .ok frontier ∧
        frontierRoot H frontier p.newSize = .ok p.newRoot := by
  unfold verifyFrontierConsistency
  split
  · rename_i hbad
    constructor
    · intro h
      simp [throw, throwThe, MonadExceptOf.throw, bind, Except.bind] at h
    · rintro ⟨⟨h₁, h₂, h₃, h₄⟩, -⟩
      omega
  · rename_i hgood
    have hg : 0 < p.oldSize.toNat ∧ p.newSize.toNat ≤ maxLeaves ∧
        p.newSize.toNat = p.oldSize.toNat + p.appendedLeaves.length ∧
        p.oldFrontier.length ≤ maxProofDepth := by omega
    rw [and_iff_right hg]
    cases hold : frontierRoot H p.oldFrontier p.oldSize with
    | error e => simp [bind, Except.bind]
    | ok old =>
      by_cases ho : old = p.oldRoot
      · subst ho
        simp only [pure, Except.pure, bind, Except.bind, ne_eq, not_true_eq_false, if_false]
        cases hf : p.appendedLeaves.foldlM (appendFrontier H) p.oldFrontier with
        | error e => simp
        | ok frontier =>
          cases hnew : frontierRoot H frontier p.newSize with
          | error e => simp [hnew]
          | ok new =>
            by_cases hn : new = p.newRoot <;>
              simp [hnew, hn, throw, throwThe, MonadExceptOf.throw]
      · simp [ho, bind, Except.bind, throw, throwThe, MonadExceptOf.throw]

theorem frontierRoot_ok_iff (H : MerkleHash D) {frontier : List (Option D)} {n : UInt64} {r : D}
    (hl : frontier.length ≤ maxProofDepth) :
    frontierRoot H frontier n = .ok r ↔
      0 < n.toNat ∧ n.toNat ≤ maxLeaves ∧
      ∃ l, foldPeaks H.nodeHash 0 none frontier = some (r, l) := by
  unfold frontierRoot
  rw [List.take_of_length_le hl]
  by_cases h0 : n.toNat = 0
  · simp [h0]
  · by_cases hm : n.toNat > maxLeaves
    · rw [if_neg h0, if_pos hm]
      constructor
      · intro h
        cases h
      · rintro ⟨-, h, -⟩
        omega
    · rw [if_neg h0, if_neg hm]
      cases hf : foldPeaks H.nodeHash 0 none frontier with
      | none => simp
      | some q =>
        obtain ⟨a, l⟩ := q
        simp only [Except.ok.injEq, Option.some.injEq, Prod.mk.injEq]
        constructor
        · rintro rfl
          exact ⟨by omega, by omega, l, rfl, rfl⟩
        · rintro ⟨-, -, l', rfl, -⟩
          rfl

variable {fs gs : List (Option D)}

theorem foldlM_appendFrontier (H : MerkleHash D) {appended leaves : List D} (h : Represents H.nodeHash fs (leaves.map H.leafHash))
    (hl : fs.length ≤ maxProofDepth) (ha : appended.foldlM (appendFrontier H) fs = .ok gs) :
    Represents H.nodeHash gs ((leaves ++ appended).map H.leafHash) ∧
      gs.length ≤ maxProofDepth := by
  induction appended generalizing leaves fs with
  | nil =>
    cases ha
    exact ⟨by simpa using h, hl⟩
  | cons leaf appended ih =>
    rw [List.foldlM_cons] at ha
    obtain ⟨mid, hm, ha⟩ := Except.bind_eq_ok.mp ha
    have hmid : Represents H.nodeHash mid ((leaves ++ [leaf]).map H.leafHash) := by
      simpa using h.appendAt hm
    have hlen := length_appendAt (by simpa using hl) hm
    have hout := ih hmid (by simpa using hlen) ha
    simpa using hout

variable {leaves : List D}

theorem sound_of_occupied [DecidableEq D] (H : MerkleHash D) (hH : H.Ideal)
    (hne : leaves ≠ []) (hmax : leaves.length ≤ maxLeaves)
    {p : MerkleFrontierConsistencyProof D} (hsize : p.oldSize.toNat = leaves.length)
    (hroot : root H leaves = .ok p.oldRoot) (hocc : occupiedSize p.oldFrontier = leaves.length)
    (hok : verifyFrontierConsistency H p = .ok ()) :
    p.newSize.toNat = leaves.length + p.appendedLeaves.length ∧
      root H (leaves ++ p.appendedLeaves) = .ok p.newRoot := by
  obtain ⟨⟨-, hnew, hsum, hlen⟩, hold, frontier, happ, hfr⟩ :=
    (verifyFrontierConsistency_ok_iff H p).mp hok
  obtain ⟨-, -, l, hfold⟩ := (frontierRoot_ok_iff H hlen).mp hold
  have hmap : leaves.map H.leafHash ≠ [] := by simpa using hne
  have hrep : Represents H.nodeHash p.oldFrontier (leaves.map H.leafHash) :=
    represents_of_foldPeaks_none hH.node_inj (by simpa using hocc) hmap hfold
      ((root_ok_iff H hne hmax p.oldRoot).mp hroot)
  obtain ⟨hrep', hlen'⟩ := foldlM_appendFrontier H hrep hlen happ
  obtain ⟨-, -, l', hfold'⟩ := (frontierRoot_ok_iff H hlen').mp hfr
  obtain ⟨r, k, hf, hc⟩ := foldPeaks_none hrep' (by simp [hne]) 0
  rw [hf] at hfold'
  have hr : r = p.newRoot := (Prod.mk.inj (Option.some.inj hfold')).1
  refine ⟨by omega, ?_⟩
  rw [root_ok_iff H (by simp [hne]) (by rw [List.length_append]; omega), hc, hr]

/-! The other direction: a frontier that folds to the old root is a frontier of symbolic
trees, and a fresh leaf appended to it shows how many leaves those trees have. -/

theorem exists_tree_of_double (H : MerkleHash D) (hH : H.Ideal) {k : Nat} {t : D}
    {X : HashTree D} (h : X.eval H.leafHash H.nodeHash = double H.nodeHash k t) :
    ∃ u : HashTree D, u.eval H.leafHash H.nodeHash = t ∧ X = double HashTree.node k u := by
  induction k generalizing X with
  | zero => exact ⟨X, h, rfl⟩
  | succ k ih =>
    rw [double_succ] at h
    cases X with
    | leaf a => exact absurd h (hH.disjoint _ _ _)
    | node A B =>
      obtain ⟨hA, hB⟩ := hH.node_inj _ _ _ _ h
      obtain ⟨u, hu, rfl⟩ := ih hA
      have hBA := HashTree.eval_injective hH.leaf_inj hH.node_inj hH.disjoint B _ (hB.trans hA.symm)
      exact ⟨u, hu, by rw [hBA, double_succ]⟩

variable {fs : List (Option D)} {T : HashTree D}

theorem exists_trees_of_fold_some (H : MerkleHash D) (hH : H.Ideal)
    {level cl l : Nat} {t : D}
    (h : foldPeaks H.nodeHash level (some (t, cl)) fs
      = some (T.eval H.leafHash H.nodeHash, l)) :
    ∃ (us : List (Option (HashTree D))) (u : HashTree D),
      fs = us.map (Option.map (HashTree.eval H.leafHash H.nodeHash)) ∧
      u.eval H.leafHash H.nodeHash = t ∧
      foldPeaks HashTree.node level (some (u, cl)) us = some (T, l) := by
  induction fs generalizing level cl t with
  | nil =>
    simp only [foldPeaks, Option.some.injEq, Prod.mk.injEq] at h
    exact ⟨[], T, rfl, h.1.symm, by rw [foldPeaks, h.2]⟩
  | cons f fs ih =>
    cases f with
    | none =>
      rw [foldPeaks] at h
      obtain ⟨us, u, rfl, hu, hf⟩ := ih h
      exact ⟨none :: us, u, rfl, hu, by rw [foldPeaks, hf]⟩
    | some p =>
      rw [foldPeaks] at h
      obtain ⟨us, c, rfl, hc, hf⟩ := ih h
      cases c with
      | leaf a => exact absurd hc (hH.disjoint _ _ _)
      | node P X =>
        obtain ⟨hP, hX⟩ := hH.node_inj _ _ _ _ hc
        obtain ⟨u, hu, rfl⟩ := exists_tree_of_double H hH hX
        exact ⟨some P :: us, u, by simp [hP], hu, by rw [foldPeaks, hf]⟩

theorem exists_trees_of_fold (H : MerkleHash D) (hH : H.Ideal)
    {level l : Nat}
    (h : foldPeaks H.nodeHash level none fs = some (T.eval H.leafHash H.nodeHash, l)) :
    ∃ us : List (Option (HashTree D)),
      fs = us.map (Option.map (HashTree.eval H.leafHash H.nodeHash)) ∧
      foldPeaks HashTree.node level none us = some (T, l) := by
  induction fs generalizing level with
  | nil => simp [foldPeaks] at h
  | cons f fs ih =>
    cases f with
    | none =>
      rw [foldPeaks] at h
      obtain ⟨us, rfl, hf⟩ := ih h
      exact ⟨none :: us, rfl, by rw [foldPeaks, hf]⟩
    | some p =>
      rw [foldPeaks] at h
      obtain ⟨us, u, rfl, hu, hf⟩ := exists_trees_of_fold_some H hH h
      exact ⟨some u :: us, by simp [hu], by rw [foldPeaks, hf]⟩

variable {node : D → D → D}

theorem foldPeaks_map {E : Type} {node' : E → E → E} {f : D → E}
    (hf : ∀ a b, f (node a b) = node' (f a) (f b)) (fs : List (Option D)) (level : Nat)
    (current : Option (D × Nat)) :
    foldPeaks node' level (current.map (Prod.map f id)) (fs.map (Option.map f)) =
      (foldPeaks node level current fs).map (Prod.map f id) := by
  have hd : ∀ k x, f (double node k x) = double node' k (f x) := by
    intro k
    induction k with
    | zero => exact fun _ => rfl
    | succ k ih =>
      intro x
      rw [double, double, ih, hf]
  induction fs generalizing level current with
  | nil => simp [foldPeaks]
  | cons p fs ih =>
    cases p with
    | none => simpa [foldPeaks] using ih (level+1) current
    | some p =>
      cases current with
      | none => simpa [foldPeaks] using ih (level+1) (some (p, level))
      | some c =>
        have h := ih (level+1) (some (node p (double node (level - c.2) c.1), level+1))
        simpa [foldPeaks, hf, hd] using h

theorem appendAt_map {E : Type} {node' : E → E → E} {f : D → E}
    (hf : ∀ a b, f (node a b) = node' (f a) (f b)) (fs : List (Option D)) (level : Nat)
    (carry : D) :
    appendAt node' level (f carry) (fs.map (Option.map f)) =
      (appendAt node level carry fs).map (List.map (Option.map f)) := by
  induction fs generalizing level carry with
  | nil =>
    simp only [List.map_nil, appendAt]
    split <;> rfl
  | cons p fs ih =>
    cases p with
    | none =>
      simp only [List.map_cons, Option.map_none, appendAt]
      split <;> rfl
    | some p =>
      simp only [List.map_cons, Option.map_some, appendAt]
      split
      · rfl
      · rw [← hf, ih]
        cases appendAt node (level+1) (node p carry) fs <;> rfl

def peakLeaves : List (Option (HashTree D)) → List D
  | [] => []
  | none :: us => peakLeaves us
  | some u :: us => peakLeaves us ++ u.leaves

def PeaksPerfect : Nat → List (Option (HashTree D)) → Prop
  | _, [] => True
  | h, none :: us => PeaksPerfect (h+1) us
  | h, some u :: us => u.Perfect h ∧ PeaksPerfect (h+1) us

variable {us : List (Option (HashTree D))}

theorem PeaksPerfect.length {h : Nat} (hp : PeaksPerfect h us) :
    (peakLeaves us).length = 2 ^ h * occupiedSize us := by
  induction us generalizing h with
  | nil => rfl
  | cons u us ih =>
    cases u with
    | none =>
      rw [peakLeaves, occupiedSize, ih hp, Nat.pow_succ]
      ring
    | some u =>
      rw [peakLeaves, occupiedSize, List.length_append, ih hp.2, hp.1.length_leaves, Nat.pow_succ]
      ring

theorem double_perfect {k e : Nat} {u : HashTree D} (h : (double HashTree.node k u).Perfect e) :
    ∃ e', e = e' + k ∧ u.Perfect e' := by
  induction k generalizing e with
  | zero => exact ⟨e, rfl, h⟩
  | succ k ih =>
    rw [double_succ] at h
    cases e with
    | zero => exact h.elim
    | succ e =>
      obtain ⟨e', rfl, hu⟩ := ih h.1
      exact ⟨e', by omega, hu⟩

theorem double_leaves (k : Nat) (u : HashTree D) :
    ∃ post, (double HashTree.node k u).leaves = u.leaves ++ post := by
  induction k with
  | zero => exact ⟨[], by simp [double]⟩
  | succ k ih =>
    obtain ⟨post, hp⟩ := ih
    rw [double_succ, HashTree.leaves, hp]
    exact ⟨post ++ (u.leaves ++ post), by simp⟩

theorem fold_some_perfect {level cl l d : Nat}
    {u T : HashTree D} (h : foldPeaks HashTree.node level (some (u, cl)) us = some (T, l))
    (hcl : cl ≤ level) (hT : T.Perfect d) :
    ∃ e, u.Perfect e ∧ PeaksPerfect (level - cl + e) us ∧
      e + us.countP Option.isSome ≤ d ∧ ∃ post, T.leaves = peakLeaves us ++ u.leaves ++ post := by
  induction us generalizing level cl u with
  | nil =>
    simp only [foldPeaks, Option.some.injEq, Prod.mk.injEq] at h
    obtain ⟨rfl, rfl⟩ := h
    exact ⟨d, hT, trivial, by simp, [], by simp [peakLeaves]⟩
  | cons p us ih =>
    cases p with
    | none =>
      rw [foldPeaks] at h
      obtain ⟨e, hu, hp, hc, post, hl⟩ := ih h (by omega)
      refine ⟨e, hu, ?_, by simpa using hc, post, by rw [peakLeaves, hl]⟩
      have hk : level + 1 - cl + e = level - cl + e + 1 := by omega
      rwa [hk] at hp
    | some p =>
      rw [foldPeaks] at h
      obtain ⟨e, hn, hp, hc, post, hl⟩ := ih h (Nat.le_refl _)
      cases e with
      | zero => exact hn.elim
      | succ e =>
        obtain ⟨hpe, hde⟩ := hn
        obtain ⟨e', rfl, hu⟩ := double_perfect hde
        obtain ⟨post', hd⟩ := double_leaves (level - cl) u
        refine ⟨e', hu, ⟨?_, ?_⟩, ?_, post' ++ post, ?_⟩
        · rwa [Nat.add_comm] at hpe
        · have hk : level + 1 - (level + 1) + (e' + (level - cl) + 1) = level - cl + e' + 1 := by
            omega
          rwa [hk] at hp
        · simp only [List.countP_cons_of_pos (p := Option.isSome) (a := some p) (l := us) rfl]
          omega
        · rw [hl, peakLeaves, HashTree.leaves, hd]
          simp

theorem countP_of_fold {level l d : Nat}
    (h : foldPeaks HashTree.node level none us = some (T, l)) (hT : T.Perfect d) :
    us.countP Option.isSome ≤ d + 1 := by
  induction us generalizing level with
  | nil => simp
  | cons p us ih =>
    rw [foldPeaks.eq_def] at h
    cases p with
    | none => simpa using ih h
    | some p =>
      obtain ⟨e, -, -, hc, -⟩ := fold_some_perfect h (Nat.le_succ level) hT
      rw [List.countP_cons_of_pos (by rfl)]
      omega

theorem appendAt_fold_perfect {us vs : List (Option (HashTree D))} {level l d : Nat}
    {c T : HashTree D} (ha : appendAt HashTree.node level c us = .ok vs)
    (h : foldPeaks HashTree.node level none vs = some (T, l)) (hT : T.Perfect d) :
    ∃ e, c.Perfect e ∧ PeaksPerfect e us ∧
      ∃ post, T.leaves = peakLeaves us ++ c.leaves ++ post := by
  induction us generalizing level c vs with
  | nil =>
    rw [appendAt] at ha
    split at ha
    · cases ha
    · cases ha
      simp only [foldPeaks, Option.some.injEq, Prod.mk.injEq] at h
      obtain ⟨rfl, -⟩ := h
      exact ⟨d, hT, trivial, [], by simp [peakLeaves]⟩
  | cons p us ih =>
    cases p with
    | none =>
      rw [appendAt] at ha
      split at ha
      · cases ha
      · cases ha
        rw [foldPeaks] at h
        obtain ⟨e, hc, hp, -, post, hl⟩ := fold_some_perfect h (Nat.le_succ level) hT
        refine ⟨e, hc, ?_, post, by rw [hl, peakLeaves]⟩
        have hk : level.succ - level + e = e + 1 := by omega
        rwa [hk] at hp
    | some p =>
      rw [appendAt] at ha
      split at ha
      · cases ha
      · cases hrec : appendAt HashTree.node (level+1) (HashTree.node p c) us with
        | error e => simp [hrec, Except.map] at ha
        | ok ws =>
          simp only [hrec, Except.map, Except.ok.injEq] at ha
          subst ha
          rw [foldPeaks] at h
          obtain ⟨e, hpc, hp, post, hl⟩ := ih hrec h
          cases e with
          | zero => exact hpc.elim
          | succ e =>
            refine ⟨e, hpc.2, ⟨hpc.1, hp⟩, post, ?_⟩
            rw [hl, peakLeaves, HashTree.leaves]
            simp

variable {level : Nat}

theorem foldPeaks_some_ne_none
    (c : D × Nat) : foldPeaks node level (some c) fs ≠ none := by
  induction fs generalizing level c with
  | nil => simp [foldPeaks]
  | cons f fs ih =>
    cases f with
    | none => simpa [foldPeaks] using ih c
    | some p => simpa [foldPeaks] using ih _

theorem foldPeaks_appendAt_ne_none
    {c : D} (ha : appendAt node level c fs = .ok gs) : foldPeaks node level none gs ≠ none := by
  induction fs generalizing level c gs with
  | nil =>
    rw [appendAt] at ha
    split at ha
    · cases ha
    · cases ha
      simp [foldPeaks]
  | cons f fs ih =>
    cases f with
    | none =>
      rw [appendAt] at ha
      split at ha
      · cases ha
      · cases ha
        rw [foldPeaks]
        exact foldPeaks_some_ne_none _
    | some p =>
      rw [appendAt] at ha
      split at ha
      · cases ha
      · cases hrec : appendAt node (level+1) (node p c) fs with
        | error e => simp [hrec, Except.map] at ha
        | ok gs' =>
          simp only [hrec, Except.map, Except.ok.injEq] at ha
          subst ha
          rw [foldPeaks]
          exact ih hrec

theorem appendAt_ok_of_countP (c : D)
    (hc : level + fs.countP Option.isSome < maxProofDepth) :
    ∃ gs, appendAt node level c fs = .ok gs := by
  induction fs generalizing level c with
  | nil =>
    rw [appendAt, if_neg (by simp at hc; omega)]
    exact ⟨_, rfl⟩
  | cons f fs ih =>
    cases f with
    | none =>
      rw [appendAt, if_neg (by omega)]
      exact ⟨_, rfl⟩
    | some p =>
      rw [List.countP_cons_of_pos (by rfl)] at hc
      rw [appendAt, if_neg (by omega)]
      have hnext : level + 1 + fs.countP Option.isSome < maxProofDepth := by omega
      obtain ⟨gs, hg⟩ := ih (node p c) hnext
      exact ⟨none :: gs, by rw [hg]; rfl⟩

theorem nextLevel_leaves (xs : List (HashTree D)) :
    ∃ post, (nextLevel HashTree.node xs).flatMap HashTree.leaves
      = xs.flatMap HashTree.leaves ++ post ∧ ∀ a ∈ post, a ∈ xs.flatMap HashTree.leaves := by
  induction xs using nextLevel.induct with
  | case1 => exact ⟨[], by simp [nextLevel]⟩
  | case2 x => exact ⟨x.leaves, by simp [nextLevel, HashTree.leaves]⟩
  | case3 x y rest ih =>
    obtain ⟨post, hp, hm⟩ := ih
    refine ⟨post, by simp [nextLevel, HashTree.leaves, hp], ?_⟩
    intro a ha
    have := hm a ha
    simp only [List.flatMap_cons, List.mem_append]
    exact .inr (.inr this)

theorem climb_leaves (xs : List (HashTree D)) :
    ∃ post, (climb HashTree.node xs).flatMap HashTree.leaves
      = xs.flatMap HashTree.leaves ++ post ∧ ∀ a ∈ post, a ∈ xs.flatMap HashTree.leaves := by
  induction xs using climb.induct HashTree.node with
  | case1 xs hlt ih =>
    obtain ⟨post, hp, hm⟩ := ih
    obtain ⟨post', hp', hm'⟩ := nextLevel_leaves xs
    refine ⟨post' ++ post, by rw [climb_of_lt hlt, hp, hp', List.append_assoc], ?_⟩
    intro a ha
    rcases List.mem_append.mp ha with ha | ha
    · exact hm' a ha
    · have := hm a ha
      rw [hp', List.mem_append] at this
      exact this.elim id (hm' a)
  | case2 xs hle =>
    rw [climb, if_neg hle]
    exact ⟨[], by simp⟩

theorem tree_leaves {t : HashTree D}
    (ht : climb HashTree.node (leaves.map .leaf) = [t]) :
    ∃ post, t.leaves = leaves ++ post ∧ ∀ a ∈ t.leaves, a ∈ leaves := by
  obtain ⟨post, hp, hm⟩ := climb_leaves (leaves.map HashTree.leaf)
  have hflat : (leaves.map HashTree.leaf).flatMap HashTree.leaves = leaves := by
    induction leaves with
    | nil => rfl
    | cons a leaves _ => simp [HashTree.leaves, List.flatMap_map]
  rw [ht, hflat] at hp
  rw [hflat] at hm
  have htl : t.leaves = leaves ++ post := by simpa using hp
  refine ⟨post, htl, ?_⟩
  intro a ha
  rw [htl, List.mem_append] at ha
  exact ha.elim id (hm a)

theorem mem_of_fold_some {level cl l : Nat} {u T : HashTree D}
    (h : foldPeaks HashTree.node level (some (u, cl)) us = some (T, l)) :
    ∀ a, a ∈ peakLeaves us ∨ a ∈ u.leaves → a ∈ T.leaves := by
  induction us generalizing level cl u with
  | nil =>
    simp only [foldPeaks, Option.some.injEq, Prod.mk.injEq] at h
    intro a ha
    rw [← h.1]
    simpa [peakLeaves] using ha
  | cons p us ih =>
    cases p with
    | none =>
      rw [foldPeaks] at h
      simpa [peakLeaves] using ih h
    | some p =>
      rw [foldPeaks] at h
      obtain ⟨post, hd⟩ := double_leaves (level - cl) u
      intro a ha
      apply ih h a
      rw [HashTree.leaves, hd]
      simp only [peakLeaves, List.mem_append] at ha ⊢
      tauto

theorem mem_of_fold {level l : Nat}
    (h : foldPeaks HashTree.node level none us = some (T, l)) : ∀ a ∈ peakLeaves us, a ∈ T.leaves := by
  induction us generalizing level with
  | nil => simp [peakLeaves]
  | cons p us ih =>
    cases p with
    | none =>
      rw [foldPeaks] at h
      exact ih h
    | some p =>
      rw [foldPeaks] at h
      intro a ha
      exact mem_of_fold_some h a (by simpa [peakLeaves] using ha)

theorem before_eq_of_notMem {x : D} {as bs ps qs : List D} (ha : x ∉ as) (hb : x ∉ bs)
    (h : as ++ x :: ps = bs ++ x :: qs) : as = bs := by
  induction as generalizing bs with
  | nil =>
    cases bs with
    | nil => rfl
    | cons b bs => exact absurd (by simp [(List.cons.inj h).1]) hb
  | cons a as ih =>
    cases bs with
    | nil => exact absurd (by simp [(List.cons.inj h).1]) ha
    | cons b bs =>
      obtain ⟨rfl, ht⟩ := List.cons.inj h
      rw [ih (fun hm => ha (List.mem_cons_of_mem _ hm)) (fun hm => hb (List.mem_cons_of_mem _ hm)) ht]

theorem MerkleHash.Ideal.exists_fresh {H : MerkleHash D} (hH : H.Ideal) (leaves : List D) (d : D) :
    ∃ x, x ∉ leaves := by
  have hinf : Infinite D := by
    by_contra hfin
    rw [not_infinite_iff_finite] at hfin
    obtain ⟨a, ha⟩ := Finite.injective_iff_surjective.mp hH.leaf_inj (H.nodeHash d d)
    exact hH.disjoint _ _ _ ha
  obtain ⟨x, hx⟩ := Infinite.exists_notMem_finset (α := D) (by classical exact leaves.toFinset)
  exact ⟨x, by simpa using hx⟩

theorem occupied_of_sound (H : MerkleHash D) (hH : H.Ideal) (hne : leaves ≠ [])
    (hmax : leaves.length < maxLeaves) {x r r' : D} {l l' : Nat}
    (hroot : root H leaves = .ok r) (hfold : foldPeaks H.nodeHash 0 none fs = some (r, l))
    (hx : x ∉ leaves) (happ : appendFrontier H fs x = .ok gs)
    (hfold' : foldPeaks H.nodeHash 0 none gs = some (r', l'))
    (hroot' : root H (leaves ++ [x]) = .ok r') : occupiedSize fs = leaves.length := by
  obtain ⟨T, d, hT, hTp, -⟩ := exists_tree leaves hne (by omega)
  obtain ⟨T', d', hT', hTp', -⟩ := exists_tree (leaves ++ [x]) (by simp)
    (by simp only [List.length_append, List.length_singleton]; omega)
  have hr : r = T.eval H.leafHash H.nodeHash := by
    rw [root_eq_eval H (by omega) hT] at hroot
    exact (Except.ok.inj hroot).symm
  have hr' : r' = T'.eval H.leafHash H.nodeHash := by
    rw [root_eq_eval H (by simp only [List.length_append, List.length_singleton]; omega) hT'] at hroot'
    exact (Except.ok.inj hroot').symm
  subst hr
  subst hr'
  obtain ⟨us, rfl, hus⟩ := exists_trees_of_fold H hH hfold
  have hsz : occupiedSize (us.map (Option.map (HashTree.eval H.leafHash H.nodeHash)))
      = occupiedSize us := by
    clear hus hfold happ
    induction us with
    | nil => rfl
    | cons u us ih => cases u <;> simp [occupiedSize, ih]
  have hev : ∀ a b : HashTree D, (HashTree.node a b).eval H.leafHash H.nodeHash
      = H.nodeHash (a.eval H.leafHash H.nodeHash) (b.eval H.leafHash H.nodeHash) := fun _ _ => rfl
  -- The append and the second fold happen on trees as well.
  have hmap := appendAt_map (f := HashTree.eval H.leafHash H.nodeHash) hev us 0 (.leaf x)
  rw [appendFrontier] at happ
  rw [show HashTree.eval H.leafHash H.nodeHash (.leaf x) = H.leafHash x from rfl, happ] at hmap
  cases hvs : appendAt HashTree.node 0 (.leaf x) us with
  | error e => simp [hvs, Except.map] at hmap
  | ok vs =>
    simp only [hvs, Except.map, Except.ok.injEq] at hmap
    subst hmap
    have hfm := foldPeaks_map (f := HashTree.eval H.leafHash H.nodeHash) hev vs 0 none
    rw [Option.map_none, hfold'] at hfm
    cases hfv : foldPeaks HashTree.node 0 none vs with
    | none => simp [hfv] at hfm
    | some q =>
      obtain ⟨S, k⟩ := q
      simp only [hfv, Option.map_some, Prod.map_apply, Option.some.injEq, Prod.mk.injEq] at hfm
      have hS : S = T' :=
        HashTree.eval_injective hH.leaf_inj hH.node_inj hH.disjoint S T' hfm.1.symm
      subst hS
      obtain ⟨e, he, hp, post, hl⟩ := appendAt_fold_perfect hvs hfv hTp'
      have he0 : e = 0 := by
        cases e with
        | zero => rfl
        | succ e => exact he.elim
      subst he0
      obtain ⟨post₁, hl₁, -⟩ := tree_leaves hT'
      obtain ⟨post₂, hl₂, hmem⟩ := tree_leaves hT
      have hnot : x ∉ peakLeaves us := fun h => hx (hmem x (mem_of_fold hus x h))
      have heq : peakLeaves us ++ x :: post = leaves ++ x :: post₁ := by
        have h := hl.symm.trans hl₁
        simpa [HashTree.leaves] using h
      have hpk : peakLeaves us = leaves := before_eq_of_notMem hnot hx heq
      have hlen := hp.length
      rw [hpk, Nat.pow_zero, Nat.one_mul] at hlen
      rw [hsz, hlen]

/-- For a log and a presented frontier, every accepted proof is sound exactly when the
occupied levels are the binary digits of the old size, or there is nothing to accept: the
log is full, or the frontier is refused before anything is appended. -/
theorem frontier_consistency_sound_iff [DecidableEq D] (H : MerkleHash D) (hH : H.Ideal)
    (leaves : List D) (hne : leaves ≠ []) (hmax : leaves.length ≤ maxLeaves)
    (oldSize : UInt64) (hsize : oldSize.toNat = leaves.length) (oldRoot : D)
    (hroot : root H leaves = .ok oldRoot) (oldFrontier : List (Option D)) :
    (∀ p : MerkleFrontierConsistencyProof D,
      p.oldSize = oldSize → p.oldRoot = oldRoot → p.oldFrontier = oldFrontier →
      verifyFrontierConsistency H p = .ok () →
      p.newSize.toNat = leaves.length + p.appendedLeaves.length ∧
        root H (leaves ++ p.appendedLeaves) = .ok p.newRoot) ↔
    (occupiedSize oldFrontier = leaves.length ∨ leaves.length = maxLeaves ∨
      maxProofDepth < oldFrontier.length ∨
      frontierRoot H oldFrontier oldSize ≠ .ok oldRoot) := by
  constructor
  · intro hsound
    by_contra hcond
    simp only [not_or, not_not, Nat.not_lt] at hcond
    obtain ⟨hocc, hfull, hlen, hold⟩ := hcond
    obtain ⟨-, -, l, hfold⟩ := (frontierRoot_ok_iff H hlen).mp hold
    obtain ⟨x, hx⟩ := hH.exists_fresh leaves oldRoot
    -- The old fold is a perfect tree of depth at most 20, so a level below 64 is free.
    obtain ⟨T, d, hT, hTp, hd⟩ := exists_tree leaves hne hmax
    have hrT : oldRoot = T.eval H.leafHash H.nodeHash := by
      rw [root_eq_eval H hmax hT] at hroot
      exact (Except.ok.inj hroot).symm
    have hcount : oldFrontier.countP Option.isSome ≤ 21 := by
      rw [hrT] at hfold
      obtain ⟨us, rfl, hus⟩ := exists_trees_of_fold H hH hfold
      have hc := countP_of_fold hus hTp
      have hsame : (us.map (Option.map (HashTree.eval H.leafHash H.nodeHash))).countP Option.isSome
          = us.countP Option.isSome := by
        rw [List.countP_map]
        congr 1
        funext u
        cases u <;> rfl
      omega
    have hdepth : 0 + oldFrontier.countP Option.isSome < maxProofDepth := by
      simp only [maxProofDepth]
      omega
    obtain ⟨gs, happ⟩ : ∃ gs, appendAt H.nodeHash 0 (H.leafHash x) oldFrontier = .ok gs :=
      appendAt_ok_of_countP _ hdepth
    have hglen := length_appendAt (by simpa using hlen) happ
    rw [Nat.zero_add] at hglen
    have hnew : (UInt64.ofNat (leaves.length + 1)).toNat = leaves.length + 1 := by
      rw [UInt64.toNat_ofNat']
      apply Nat.mod_eq_of_lt
      simp only [maxLeaves] at hmax
      omega
    obtain ⟨r', l', hfold'⟩ : ∃ r' l', foldPeaks H.nodeHash 0 none gs = some (r', l') := by
      cases hg : foldPeaks H.nodeHash 0 none gs with
      | some q => exact ⟨q.1, q.2, rfl⟩
      | none => exact (foldPeaks_appendAt_ne_none happ hg).elim
    have hpos := List.length_pos_of_ne_nil hne
    have hgr : frontierRoot H gs (UInt64.ofNat (leaves.length + 1)) = .ok r' := by
      rw [frontierRoot_ok_iff H hglen, hnew]
      exact ⟨by omega, by omega, l', hfold'⟩
    have hs := hsound ⟨oldSize, UInt64.ofNat (leaves.length + 1), oldFrontier, [x], oldRoot, r'⟩
      rfl rfl rfl (by
        rw [verifyFrontierConsistency_ok_iff]
        refine ⟨⟨by simp only; omega, by simp only; omega, by simp only [hnew, hsize]; rfl, hlen⟩,
          hold, gs, ?_, hgr⟩
        simp [appendFrontier, happ])
    exact hocc (occupied_of_sound H hH hne (by omega) hroot hfold hx happ hfold' hs.2)
  · rintro hcond p rfl rfl rfl hok
    obtain ⟨⟨-, hnew, hsum, hlen⟩, hold, -⟩ := (verifyFrontierConsistency_ok_iff H p).mp hok
    rcases hcond with hocc | hfull | hdeep | href
    · exact sound_of_occupied H hH hne hmax hsize hroot hocc hok
    · have hnil : p.appendedLeaves = [] := by
        apply List.length_eq_zero_iff.mp
        omega
      obtain ⟨-, -, frontier, happ, hfr⟩ := (verifyFrontierConsistency_ok_iff H p).mp hok
      rw [hnil] at happ
      cases happ
      obtain ⟨-, -, l, h₁⟩ := (frontierRoot_ok_iff H hlen).mp hold
      obtain ⟨-, -, l', h₂⟩ := (frontierRoot_ok_iff H hlen).mp hfr
      rw [h₁] at h₂
      rw [hnil, List.append_nil, hroot, (Prod.mk.inj (Option.some.inj h₂)).1]
      exact ⟨by simpa [hnil, hsize] using hsum, rfl⟩
    · omega
    · exact absurd hold href

def forgedFrontier : MerkleFrontierConsistencyProof (HashTree Nat) :=
  let a := symbolicHash.leafHash (.leaf 5)
  let b := symbolicHash.leafHash (.leaf 6)
  let c := symbolicHash.leafHash (.leaf 7)
  let x := symbolicHash.leafHash (.leaf 8)
  let old := symbolicHash.nodeHash (symbolicHash.nodeHash a b) (symbolicHash.nodeHash c c)
  let pad := symbolicHash.nodeHash x x
  { oldSize := 3
    newSize := 4
    oldFrontier := [none, none, some old]
    appendedLeaves := [.leaf 8]
    oldRoot := old
    newRoot := symbolicHash.nodeHash old (symbolicHash.nodeHash pad pad) }

theorem forged_frontier_accepted :
    symbolicHash.Ideal ∧ forgedFrontier.oldSize.toNat = [5, 6, 7].length ∧
    root symbolicHash [.leaf 5, .leaf 6, .leaf 7] = .ok forgedFrontier.oldRoot ∧
    verifyFrontierConsistency symbolicHash forgedFrontier = .ok () ∧
    root symbolicHash ([.leaf 5, .leaf 6, .leaf 7] ++ forgedFrontier.appendedLeaves)
      ≠ .ok forgedFrontier.newRoot := by
  refine ⟨symbolicHash_ideal, rfl, ?_, ?_, ?_⟩
  · simp [root, checkedLeaves, maxLeaves, climb, nextLevel, forgedFrontier, bind, Except.bind]
  · rfl
  · simp [root, checkedLeaves, maxLeaves, climb, nextLevel, forgedFrontier, symbolicHash, bind,
      Except.bind]

theorem frontier_consistency_sound_iff_symbolic :
    let frontier := [some (symbolicHash.leafHash (.leaf 7)),
      some (symbolicHash.nodeHash (symbolicHash.leafHash (.leaf 5))
        (symbolicHash.leafHash (.leaf 6)))]
    occupiedSize frontier = 3 ∧
    (∀ p : MerkleFrontierConsistencyProof (HashTree Nat),
      p.oldSize = 3 → p.oldRoot = forgedFrontier.oldRoot → p.oldFrontier = frontier →
      verifyFrontierConsistency symbolicHash p = .ok () →
      p.newSize.toNat = 3 + p.appendedLeaves.length ∧
        root symbolicHash ([.leaf 5, .leaf 6, .leaf 7] ++ p.appendedLeaves) = .ok p.newRoot) :=
  ⟨rfl, (frontier_consistency_sound_iff symbolicHash symbolicHash_ideal
    [.leaf 5, .leaf 6, .leaf 7] (by simp) (by simp [maxLeaves]) 3 rfl forgedFrontier.oldRoot
    (by simp [root, checkedLeaves, maxLeaves, climb, nextLevel, forgedFrontier, bind, Except.bind])
    _).mpr (.inl rfl)⟩

end Ferrocrate.Witness.Merkle
