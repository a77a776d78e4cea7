import Mathlib.Data.List.Induction
import Mathlib.Data.List.Infix
import Mathlib.Data.List.Lex
import Mathlib.Order.Lattice

/-! Trees whose nodes are found by path: what lies under a path makes it a directory.
One tree is turned into another by removing the topmost paths it lost, then writing the
paths of the other in order. -/
namespace Ferrocrate.Lib

section Order
variable {α : Type} [LinearOrder α]

theorem lt_append_of_ne_nil (p : List α) {q : List α} (h : q ≠ []) : p < p ++ q := by
  induction p with
  | nil =>
    cases q with
    | nil => exact absurd rfl h
    | cons a q => exact List.nil_lt_cons a q
  | cons a p ih => simpa [List.cons_lt_cons_iff] using ih

theorem lt_of_under {p q : List α} (h : p <+: q) (hne : p ≠ q) : p < q := by
  obtain ⟨rest, rfl⟩ := h
  refine lt_append_of_ne_nil p ?_
  intro hnil
  exact hne (by rw [hnil, List.append_nil])

theorem ne_append_singleton_of_under {α : Type} {p parent : List α} {a : α} (h : p <+: parent) :
    p ≠ parent ++ [a] := by
  intro heq
  have hlength := h.length_le
  rw [heq, List.length_append, List.length_singleton] at hlength
  omega

theorem filter_lt_of_pairwise [∀ x y : α, Decidable (x < y)] {done rest : List α} {a : α}
    (h : (done ++ a :: rest).Pairwise (· < ·)) :
    (done ++ a :: rest).filter (· < a) = done := by
  obtain ⟨-, hrest, hdone⟩ := List.pairwise_append.mp h
  have hkeep : done.filter (· < a) = done :=
    List.filter_eq_self.mpr fun x hx => by simpa using hdone x hx a (List.mem_cons_self ..)
  have hdrop : (a :: rest).filter (· < a) = [] := by
    rw [List.filter_eq_nil_iff]
    intro x hx
    cases hx with
    | head => simp
    | tail _ hx => simpa using ((List.pairwise_cons.mp hrest).1 x hx).le
  rw [List.filter_append, hkeep, hdrop, List.append_nil]

end Order

namespace PathTree
variable {α V : Type} {dir : V} {B A : List α → Option V} {p q r : List α}

structure IsTree (dir : V) (fs : List α → Option V) : Prop where
  root : fs [] = some dir
  parents : ∀ p name, fs (p ++ [name]) ≠ none → fs p = some dir

variable {fs : List α → Option V}

theorem IsTree.directory_of_under (h : IsTree dir fs) (hu : p <+: q)
    (hne : p ≠ q) (hq : fs q ≠ none) : fs p = some dir := by
  obtain ⟨rest, rfl⟩ := hu
  induction rest using List.reverseRecOn with
  | nil => exact absurd (List.append_nil p).symm hne
  | append_singleton rest name ih =>
    rw [← List.append_assoc] at hq
    have hparent := h.parents _ _ hq
    by_cases hrest : p = p ++ rest
    · rwa [← hrest] at hparent
    · exact ih hrest (by simp [hparent])

theorem IsTree.eq_none_of_under (h : IsTree dir fs) (hu : p <+: q)
    (hne : p ≠ q) (hp : fs p ≠ some dir) : fs q = none := by
  by_contra hq
  exact hp (h.directory_of_under hu hne hq)

structure Deleted (B A : List α → Option V) (r : List α) : Prop where
  before : B r ≠ none
  after : A r = none
  above : ∀ a, a <+: r → a ≠ r → A a ≠ none

theorem Deleted.eq_of_under (h : Deleted B A r) (h' : Deleted B A q) (hu : q <+: r) : q = r := by
  by_contra hne
  exact h.above q hu hne h'.after

theorem Deleted.ne_nil (h : Deleted B A r) (hA : IsTree dir A) : r ≠ [] := by
  intro hnil
  have hroot := h.after
  rw [hnil, hA.root] at hroot
  cases hroot

theorem exists_deleted (hB : IsTree dir B) (hA : IsTree dir A) (hq : B q ≠ none)
    (hgone : A q = none) : ∃ r, r <+: q ∧ Deleted B A r := by
  induction q using List.reverseRecOn with
  | nil => simp [hA.root] at hgone
  | append_singleton q name ih =>
    by_cases hparent : A q = none
    · obtain ⟨r, hr, hdeleted⟩ := ih (by simp [hB.parents q name hq]) hparent
      exact ⟨r, hr.trans (List.prefix_append q [name]), hdeleted⟩
    · refine ⟨q ++ [name], List.prefix_rfl, hq, hgone, ?_⟩
      intro a ha hne
      cases List.prefix_concat_iff.mp ha with
      | inl heq => exact absurd heq hne
      | inr ha =>
        by_cases haq : a = q
        · rwa [haq]
        · simp [hA.directory_of_under ha haq hparent]

variable [DecidableEq α]

def cleared (B : List α → Option V) (gone : List (List α)) : List α → Option V :=
  fun q => if ∃ r ∈ gone, r <+: q then none else B q

def rebuilt (B A : List α → Option V) (done : List (List α)) : List α → Option V :=
  fun q => if q ∈ done then A q else if A q = none then none else B q

theorem cleared_of_above {gone : List (List α)} (h : ∀ r ∈ gone, Deleted B A r)
    (hq : Deleted B A q) (hnot : q ∉ gone) (hu : p <+: q) : cleared B gone p = B p := by
  rw [cleared, if_neg]
  intro hcovered
  obtain ⟨r, hr, hrp⟩ := hcovered
  have heq := hq.eq_of_under (h r hr) (hrp.trans hu)
  exact hnot (heq ▸ hr)

theorem cleared_append_singleton (gone : List (List α)) (r : List α) :
    cleared B (gone ++ [r]) = fun q => if r <+: q then none else cleared B gone q := by
  funext q
  by_cases hr : r <+: q
  · have hex : ∃ r' ∈ gone ++ [r], r' <+: q := ⟨r, by simp, hr⟩
    rw [cleared, if_pos hex, if_pos hr]
  · have hiff : (∃ r' ∈ gone ++ [r], r' <+: q) ↔ ∃ r' ∈ gone, r' <+: q := by
      simp [or_and_right, exists_or, hr]
    simp only [cleared, hiff, if_neg hr]

theorem cleared_eq_rebuilt (hB : IsTree dir B) (hA : IsTree dir A) {gone : List (List α)}
    (h : ∀ r, r ∈ gone ↔ Deleted B A r) : cleared B gone = rebuilt B A [] := by
  funext q
  rw [rebuilt, if_neg (List.not_mem_nil), cleared]
  by_cases hA' : A q = none
  · rw [if_pos hA']
    by_cases hB' : B q = none
    · rw [hB', ite_self]
    · obtain ⟨r, hr, hdeleted⟩ := exists_deleted hB hA hB' hA'
      exact if_pos ⟨r, (h r).mpr hdeleted, hr⟩
  · rw [if_neg hA', if_neg]
    intro hcovered
    obtain ⟨r, hr, hrq⟩ := hcovered
    have hgone := ((h r).mp hr).after
    by_cases heq : r = q
    · exact hA' (heq ▸ hgone)
    · rw [hA.directory_of_under hrq heq hA'] at hgone
      cases hgone

theorem rebuilt_append_singleton (done : List (List α)) (p : List α) :
    rebuilt B A (done ++ [p]) = fun q => if q = p then A p else rebuilt B A done q := by
  funext q
  by_cases hq : q = p
  · simp [rebuilt, hq]
  · simp [rebuilt, hq]

theorem rebuilt_all {done : List (List α)} (h : ∀ q, A q ≠ none → q ∈ done ∨ B q = A q) :
    rebuilt B A done = A := by
  funext q
  rw [rebuilt]
  by_cases hq : q ∈ done
  · rw [if_pos hq]
  · rw [if_neg hq]
    by_cases hA : A q = none
    · rw [if_pos hA, hA]
    · rw [if_neg hA]
      exact (h q hA).resolve_left hq

end PathTree

namespace PathTree
variable {α V : Type} [LinearOrder α] [DecidableEq α] {dir : V} {B A : List α → Option V}
  {p q : List α}
  {done : List (List α)}

structure Written (A : List α → Option V) (done : List (List α)) (p : List α) : Prop where
  before : ∀ q ∈ done, q < p
  all : ∀ q, A q ≠ none → q ≠ [] → q < p → q ∈ done

theorem Written.above (h : Written A done p) (hB : IsTree dir B) (hA : IsTree dir A)
    (hp : A p ≠ none) (hu : q <+: p) (hne : q ≠ p) : rebuilt B A done q = some dir := by
  have hdir := hA.directory_of_under hu hne hp
  rw [rebuilt]
  by_cases hq : q = []
  · simp [hq, hA.root, hB.root]
  · rw [if_pos (h.all q (by simp [hdir]) hq (lt_of_under hu hne)), hdir]

theorem Written.at (h : Written A done p) (hp : A p ≠ none) : rebuilt B A done p = B p := by
  rw [rebuilt, if_neg fun hmem => lt_irrefl p (h.before p hmem), if_neg hp]

theorem Written.under (h : Written A done p) (hB : IsTree dir B) (hA : IsTree dir A)
    (hp : A p ≠ some dir ∨ B p ≠ some dir) (hu : p <+: q) (hne : p ≠ q) :
    rebuilt B A done q = none := by
  have hnot : q ∉ done := fun hmem => lt_asymm (lt_of_under hu hne) (h.before q hmem)
  rw [rebuilt, if_neg hnot]
  cases hp with
  | inl hp => rw [if_pos (hA.eq_none_of_under hu hne hp)]
  | inr hp => rw [hB.eq_none_of_under hu hne hp, ite_self]

end PathTree
end Ferrocrate.Lib
