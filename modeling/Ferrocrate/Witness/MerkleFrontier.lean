import Ferrocrate.Witness.Merkle

/-! Compact consistency proofs: the binary frontier of a log, the root folded from it, and
the check that a presented frontier extends an old root to a new one. -/
namespace Ferrocrate.Witness.Merkle
open Lib
variable {D : Type}

def appendAt (node : D → D → D) (level : Nat) (carry : D) :
    List (Option D) → Except MerkleError (List (Option D))
  | [] => if maxProofDepth ≤ level then .error .proofTooDeep else .ok [some carry]
  | none :: rest =>
    if maxProofDepth ≤ level then .error .proofTooDeep else .ok (some carry :: rest)
  | some left :: rest =>
    if maxProofDepth ≤ level then .error .proofTooDeep
    else (appendAt node (level+1) (node left carry) rest).map (none :: ·)

def appendFrontier (H : MerkleHash D) (frontier : List (Option D)) (leaf : D) :
    Except MerkleError (List (Option D)) :=
  appendAt H.nodeHash 0 (H.leafHash leaf) frontier

def double (node : D → D → D) : Nat → D → D
  | 0, right => right
  | k+1, right => double node k (node right right)

def foldPeaks (node : D → D → D) : Nat → Option (D × Nat) → List (Option D) → Option (D × Nat)
  | _, current, [] => current
  | level, current, none :: rest => foldPeaks node (level+1) current rest
  | level, none, some peak :: rest => foldPeaks node (level+1) (some (peak, level)) rest
  | level, some (right, currentLevel), some peak :: rest =>
    foldPeaks node (level+1)
      (some (node peak (double node (level - currentLevel) right), level+1)) rest

def frontierRoot (H : MerkleHash D) (frontier : List (Option D)) (leafCount : UInt64) :
    Except MerkleError D :=
  if leafCount.toNat = 0 then .error .empty
  else if leafCount.toNat > maxLeaves then .error .tooManyLeaves
  else match foldPeaks H.nodeHash 0 none (frontier.take maxProofDepth) with
    | some (current, _) => .ok current
    | none => .error .empty

structure MerkleFrontierConsistencyProof (D : Type) where
  oldSize : UInt64
  newSize : UInt64
  oldFrontier : List (Option D)
  appendedLeaves : List D
  oldRoot : D
  newRoot : D

def verifyFrontierConsistency [DecidableEq D] (H : MerkleHash D)
    (proof : MerkleFrontierConsistencyProof D) : Except MerkleError Unit := do
  if proof.oldSize.toNat = 0
      ∨ proof.oldSize.toNat > proof.newSize.toNat
      ∨ proof.oldSize.toNat > maxLeaves
      ∨ proof.newSize.toNat > maxLeaves
      ∨ proof.newSize.toNat - proof.oldSize.toNat ≠ proof.appendedLeaves.length
      ∨ proof.oldFrontier.length > maxProofDepth then
    throw .indexOutOfRange
  let oldRoot ← frontierRoot H proof.oldFrontier proof.oldSize
  if oldRoot ≠ proof.oldRoot then
    throw .rootMismatch
  let frontier ← proof.appendedLeaves.foldlM (appendFrontier H) proof.oldFrontier
  let newRoot ← frontierRoot H frontier proof.newSize
  if newRoot ≠ proof.newRoot then
    throw .rootMismatch

def occupiedSize : List (Option D) → Nat
  | [] => 0
  | none :: rest => 2 * occupiedSize rest
  | some _ :: rest => 2 * occupiedSize rest + 1

def Represents (node : D → D → D) : List (Option D) → List D → Prop
  | [], xs => xs = []
  | none :: rest, xs => xs.length % 2 = 0 ∧ Represents node rest (nextLevel node xs)
  | some p :: rest, xs =>
    ∃ ys, xs = ys ++ [p] ∧ ys.length % 2 = 0 ∧ Represents node rest (nextLevel node ys)

variable {node : D → D → D}

theorem nextLevel_append (xs ys : List D) (h : xs.length % 2 = 0) :
    nextLevel node (xs ++ ys) = nextLevel node xs ++ nextLevel node ys := by
  induction xs using nextLevel.induct with
  | case1 => simp [nextLevel]
  | case2 x => simp at h
  | case3 x y rest ih =>
    have hr : rest.length % 2 = 0 := by
      simp only [List.length_cons] at h
      omega
    simp [nextLevel, ih hr]

variable {xs : List D}

theorem nextLevel_ne_nil (h : xs ≠ []) :
    nextLevel node xs ≠ [] := by
  intro hnil
  have hlen := length_nextLevel node xs
  have hpos := List.length_pos_of_ne_nil h
  rw [hnil, List.length_nil] at hlen
  omega

variable {fs : List (Option D)}

theorem Represents.length
    (h : Represents node fs xs) : xs.length = occupiedSize fs := by
  induction fs generalizing xs with
  | nil =>
    have hx : xs = [] := h
    simp [hx, occupiedSize]
  | cons f fs ih =>
    cases f with
    | none =>
      obtain ⟨heven, hr⟩ := h
      have hlen := ih hr
      rw [length_nextLevel] at hlen
      rw [occupiedSize]
      omega
    | some p =>
      obtain ⟨ys, rfl, heven, hr⟩ := h
      have hlen := ih hr
      rw [length_nextLevel] at hlen
      rw [occupiedSize, List.length_append, List.length_singleton]
      omega

variable {fs gs : List (Option D)}

theorem Represents.appendAt {level : Nat} {carry : D} (h : Represents node fs xs)
    (ha : Merkle.appendAt node level carry fs = .ok gs) :
    Represents node gs (xs ++ [carry]) := by
  induction fs generalizing level carry xs gs with
  | nil =>
    have hx : xs = [] := h
    rw [Merkle.appendAt] at ha
    split at ha
    · cases ha
    · cases ha
      exact ⟨[], by simp [hx], rfl, rfl⟩
  | cons f fs ih =>
    cases f with
    | none =>
      rw [Merkle.appendAt] at ha
      split at ha
      · cases ha
      · cases ha
        exact ⟨xs, rfl, h.1, h.2⟩
    | some p =>
      obtain ⟨ys, rfl, heven, hr⟩ := h
      rw [Merkle.appendAt] at ha
      split at ha
      · cases ha
      · cases hrec : Merkle.appendAt node (level+1) (node p carry) fs with
        | error e => simp [hrec, Except.map] at ha
        | ok gs' =>
          simp only [hrec, Except.map, Except.ok.injEq] at ha
          subst ha
          refine ⟨by simp; omega, ?_⟩
          rw [List.append_assoc, nextLevel_append ys _ heven]
          exact ih hr hrec

theorem length_appendAt {level : Nat} {carry : D}
    (hl : level + fs.length ≤ maxProofDepth) (ha : appendAt node level carry fs = .ok gs) :
    level + gs.length ≤ maxProofDepth := by
  induction fs generalizing level carry gs with
  | nil =>
    rw [appendAt] at ha
    split at ha
    · cases ha
    · cases ha
      simp only [List.length_singleton]
      omega
  | cons f fs ih =>
    rw [List.length_cons] at hl
    cases f with
    | none =>
      rw [appendAt] at ha
      split at ha
      · cases ha
      · cases ha
        simpa using hl
    | some p =>
      rw [appendAt] at ha
      split at ha
      · cases ha
      · cases hrec : appendAt node (level+1) (node p carry) fs with
        | error e => simp [hrec, Except.map] at ha
        | ok gs' =>
          simp only [hrec, Except.map, Except.ok.injEq] at ha
          subst ha
          have := ih (by omega) hrec
          simp only [List.length_cons]
          omega

theorem double_succ (node : D → D → D) (k : Nat) (x : D) :
    double node (k+1) x = node (double node k x) (double node k x) := by
  induction k generalizing x with
  | zero => rfl
  | succ k ih => rw [double, ih, double]

theorem foldPeaks_of_occupied_zero (level : Nat)
    (current : Option (D × Nat)) (h : occupiedSize fs = 0) :
    foldPeaks node level current fs = current := by
  induction fs generalizing level with
  | nil => rw [foldPeaks]
  | cons f fs ih =>
    cases f with
    | none =>
      rw [occupiedSize] at h
      rw [foldPeaks]
      exact ih _ (by omega)
    | some p => simp [occupiedSize] at h

theorem represents_of_occupied_zero
    (h : occupiedSize fs = 0) : Represents node fs [] := by
  induction fs with
  | nil => rfl
  | cons f fs ih =>
    cases f with
    | none =>
      rw [occupiedSize] at h
      exact ⟨rfl, by simpa [nextLevel] using ih (by omega)⟩
    | some p => simp [occupiedSize] at h

theorem climb_even_tail (s : D) (hne : xs ≠ [])
    (heven : xs.length % 2 = 0) :
    climb node (xs ++ [s]) = climb node (nextLevel node xs ++ [node s s]) := by
  have hpos := List.length_pos_of_ne_nil hne
  rw [climb_of_lt (by simp only [List.length_append, List.length_singleton]; omega),
    nextLevel_append xs _ heven]
  rfl

theorem climb_odd_tail {ys : List D} (p s : D) (heven : ys.length % 2 = 0) :
    climb node (ys ++ [p] ++ [s]) = climb node (nextLevel node ys ++ [node p s]) := by
  rw [climb_of_lt (by simp), List.append_assoc, nextLevel_append ys _ heven]
  rfl

theorem foldPeaks_some
    (h : Represents node fs xs) (hne : xs ≠ []) {level cl : Nat} (t : D) (hcl : cl ≤ level) :
    ∃ r l, foldPeaks node level (some (t, cl)) fs = some (r, l) ∧
      climb node (xs ++ [double node (level - cl) t]) = [r] := by
  induction fs generalizing xs level cl t with
  | nil => exact absurd h hne
  | cons f fs ih =>
    cases f with
    | none =>
      obtain ⟨heven, hr⟩ := h
      have hnext : cl ≤ level + 1 := by omega
      obtain ⟨r, l, hf, hc⟩ := ih hr (nextLevel_ne_nil hne) t hnext
      refine ⟨r, l, by rw [foldPeaks, hf], ?_⟩
      rw [climb_even_tail _ hne heven, ← double_succ node, ← hc]
      congr 4
      omega
    | some p =>
      obtain ⟨ys, rfl, heven, hr⟩ := h
      rw [foldPeaks, climb_odd_tail p _ heven]
      by_cases hys : ys = []
      · subst hys
        rw [nextLevel] at hr
        have hz := hr.length
        rw [foldPeaks_of_occupied_zero _ _ (by simpa using hz.symm)]
        exact ⟨_, _, rfl, by rw [nextLevel, List.nil_append, climb_singleton]⟩
      · obtain ⟨r, l, hf, hc⟩ := ih hr (nextLevel_ne_nil hys)
          (node p (double node (level - cl) t)) (Nat.le_refl (level+1))
        refine ⟨r, l, hf, ?_⟩
        simpa [double] using hc

theorem foldPeaks_none
    (h : Represents node fs xs) (hne : xs ≠ []) (level : Nat) :
    ∃ r l, foldPeaks node level none fs = some (r, l) ∧ climb node xs = [r] := by
  induction fs generalizing xs level with
  | nil => exact absurd h hne
  | cons f fs ih =>
    cases f with
    | none =>
      obtain ⟨heven, hr⟩ := h
      have hpos := List.length_pos_of_ne_nil hne
      obtain ⟨r, l, hf, hc⟩ := ih hr (nextLevel_ne_nil hne) (level+1)
      exact ⟨r, l, by rw [foldPeaks, hf], by rw [climb_of_lt (by omega), hc]⟩
    | some p =>
      obtain ⟨ys, rfl, heven, hr⟩ := h
      rw [foldPeaks]
      by_cases hys : ys = []
      · subst hys
        rw [nextLevel] at hr
        have hz := hr.length
        rw [foldPeaks_of_occupied_zero _ _ (by simpa using hz.symm)]
        exact ⟨_, _, rfl, climb_singleton node p⟩
      · obtain ⟨r, l, hf, hc⟩ := foldPeaks_some hr (nextLevel_ne_nil hys) p (Nat.le_succ level)
        refine ⟨r, l, hf, ?_⟩
        have hk : level + 1 - level = 1 := by omega
        rw [climb_even_tail _ hys heven, ← hc, Nat.succ_eq_add_one, hk]
        rfl

theorem represents_of_foldPeaks_some
    (hn : ∀ a b c d, node a b = node c d → a = c ∧ b = d)
    (hsize : occupiedSize fs = xs.length) (hne : xs ≠ []) {level cl l : Nat} {t s r : D}
    (hcl : cl ≤ level) (hf : foldPeaks node level (some (t, cl)) fs = some (r, l))
    (hc : climb node (xs ++ [s]) = [r]) :
    Represents node fs xs ∧ double node (level - cl) t = s := by
  induction fs generalizing xs level cl t s with
  | nil => exact absurd (List.length_eq_zero_iff.mp hsize.symm) hne
  | cons f fs ih =>
    cases f with
    | none =>
      rw [occupiedSize] at hsize
      rw [foldPeaks] at hf
      rw [climb_even_tail s hne (by omega)] at hc
      obtain ⟨hr, hd⟩ := ih (by rw [length_nextLevel]; omega) (nextLevel_ne_nil hne)
        (Nat.le_succ_of_le hcl) hf hc
      rw [Nat.succ_eq_add_one, Nat.succ_sub hcl, Nat.succ_eq_add_one, double_succ] at hd
      exact ⟨⟨by omega, hr⟩, (hn _ _ _ _ hd).1⟩
    | some p =>
      rw [occupiedSize] at hsize
      rw [foldPeaks] at hf
      obtain ⟨ys, q, rfl⟩ := List.eq_nil_or_concat xs |>.resolve_left hne
      rw [List.concat_eq_append] at *
      rw [List.length_append, List.length_singleton] at hsize
      have heven : ys.length % 2 = 0 := by omega
      rw [climb_odd_tail q s heven] at hc
      by_cases hys : ys = []
      · subst hys
        have hz : occupiedSize fs = 0 := by simpa using hsize
        rw [foldPeaks_of_occupied_zero _ _ hz] at hf
        rw [nextLevel, List.nil_append, climb_singleton] at hc
        have heq : node p (double node (level - cl) t) = node q s := by
          rw [(Prod.mk.inj (Option.some.inj hf)).1, (List.cons.inj hc).1]
        obtain ⟨rfl, hd⟩ := hn _ _ _ _ heq
        exact ⟨⟨[], rfl, rfl, by simpa [nextLevel] using represents_of_occupied_zero hz⟩, hd⟩
      · obtain ⟨hr, hd⟩ := ih (by rw [length_nextLevel]; omega) (nextLevel_ne_nil hys)
          (Nat.le_refl _) hf hc
        rw [Nat.sub_self, double] at hd
        obtain ⟨rfl, hts⟩ := hn _ _ _ _ hd
        exact ⟨⟨ys, rfl, heven, hr⟩, hts⟩

theorem represents_of_foldPeaks_none
    (hn : ∀ a b c d, node a b = node c d → a = c ∧ b = d)
    (hsize : occupiedSize fs = xs.length) (hne : xs ≠ []) {level l : Nat} {r : D}
    (hf : foldPeaks node level none fs = some (r, l)) (hc : climb node xs = [r]) :
    Represents node fs xs := by
  induction fs generalizing xs level with
  | nil => exact absurd (List.length_eq_zero_iff.mp hsize.symm) hne
  | cons f fs ih =>
    cases f with
    | none =>
      rw [occupiedSize] at hsize
      rw [foldPeaks] at hf
      have hpos := List.length_pos_of_ne_nil hne
      rw [climb_of_lt (by omega)] at hc
      exact ⟨by omega, ih (by rw [length_nextLevel]; omega) (nextLevel_ne_nil hne) hf hc⟩
    | some p =>
      rw [occupiedSize] at hsize
      rw [foldPeaks] at hf
      obtain ⟨ys, q, rfl⟩ := List.eq_nil_or_concat xs |>.resolve_left hne
      rw [List.concat_eq_append] at *
      rw [List.length_append, List.length_singleton] at hsize
      have heven : ys.length % 2 = 0 := by omega
      by_cases hys : ys = []
      · subst hys
        have hz : occupiedSize fs = 0 := by simpa using hsize
        rw [foldPeaks_of_occupied_zero _ _ hz] at hf
        rw [List.nil_append, climb_singleton] at hc
        have heq : p = q := by
          rw [(Prod.mk.inj (Option.some.inj hf)).1, (List.cons.inj hc).1]
        exact ⟨[], by rw [heq], rfl, by simpa [nextLevel] using represents_of_occupied_zero hz⟩
      · rw [climb_even_tail q hys heven] at hc
        obtain ⟨hr, hd⟩ := represents_of_foldPeaks_some hn (by rw [length_nextLevel]; omega)
          (nextLevel_ne_nil hys) (Nat.le_succ level) hf hc
        rw [Nat.succ_eq_add_one, Nat.add_sub_cancel_left] at hd
        obtain ⟨rfl, -⟩ := hn _ _ _ _ hd
        exact ⟨ys, rfl, heven, hr⟩

end Ferrocrate.Witness.Merkle
