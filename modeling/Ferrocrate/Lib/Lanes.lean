import Mathlib.Data.List.Basic
import Mathlib.Data.List.Induction

/-! Sequences of runs and of two kinds of inserts, sorted by kind. Of the inserts after the first
run only the number of runs before the first of them is kept. -/
namespace Ferrocrate.Lib
variable {ρ φ π α : Type}

inductive Item (ρ φ π : Type) where
  | run (r : ρ)
  | left (f : φ)
  | right (p : π)
  deriving DecidableEq

namespace Item

def isRun : Item ρ φ π → Bool
  | run _ => true
  | _ => false

def isLeft : Item ρ φ π → Bool
  | left _ => true
  | _ => false

def isRight : Item ρ φ π → Bool
  | right _ => true
  | _ => false

end Item

structure Lane (α : Type) where
  before : List α
  after : List α
  index : Option Nat

namespace Lane

def push (runs : Nat) (l : Lane α) (a : α) : Lane α :=
  if runs = 0 then { l with before := l.before ++ [a] }
  else { l with after := l.after ++ [a], index := some (l.index.getD runs) }

structure Ok (runs : Nat) (l : Lane α) : Prop where
  index_none : l.index = none ↔ l.after = []
  le : ∀ a, l.index = some a → 1 ≤ a ∧ a ≤ runs

def Tight (runs : Nat) (l : Lane α) : Prop := l.after.length ≤ 1 ∨ l.index = some runs

variable {runs : Nat} {l l' : Lane α} {a a' : α}

theorem Ok.push (h : l.Ok runs) (a : α) : (l.push runs a).Ok runs := by
  unfold Lane.push
  split
  · exact ⟨h.index_none, h.le⟩
  next hne =>
    refine ⟨by simp, ?_⟩
    intro b hb
    cases hindex : l.index with
    | none =>
      simp only [hindex, Option.getD_none, Option.some.injEq] at hb
      omega
    | some c =>
      simp only [hindex, Option.getD_some, Option.some.injEq] at hb
      exact hb ▸ h.le c hindex

theorem Ok.succ (h : l.Ok runs) : l.Ok (runs + 1) := by
  refine ⟨h.index_none, fun a ha => ?_⟩
  have := h.le a ha
  omega

theorem Ok.index_ne_succ (h : l.Ok runs) : l.index ≠ some (runs + 1) := by
  intro hindex
  have := h.le _ hindex
  omega

theorem Ok.tight_succ (h : l.Ok runs) : l.Tight (runs + 1) ↔ l.after.length ≤ 1 := by
  simp [Tight, h.index_ne_succ]

theorem Tight.index_of_push (h : l.Ok runs) (ht : (l.push runs a).Tight runs) (hne : runs ≠ 0) :
    (l.push runs a).index = some runs := by
  rcases ht with hone | hindex
  · simp only [push, hne, if_false, List.length_append, List.length_singleton] at hone ⊢
    have hempty : l.after = [] := List.length_eq_zero_iff.mp (by omega)
    rw [h.index_none.mpr hempty]
    rfl
  · exact hindex

theorem Tight.of_push (h : l.Ok runs) (ht : (l.push runs a).Tight runs) : l.Tight runs := by
  unfold push at ht
  split at ht
  · exact ht
  next hne =>
    by_cases hempty : l.after = []
    · exact .inl (by simp [hempty])
    · obtain ⟨c, hc⟩ := Option.ne_none_iff_exists'.mp (mt h.index_none.mp hempty)
      rcases ht with hone | hindex
      · exact .inl (by simp only [List.length_append, List.length_singleton] at hone; omega)
      · exact .inr (by simpa [hc] using hindex)

theorem push_inj (h : l.Ok runs) (h' : l'.Ok runs) (heq : l.push runs a = l'.push runs a') :
    l = l' ∧ a = a' := by
  obtain ⟨before, after, index⟩ := l
  obtain ⟨before', after', index'⟩ := l'
  unfold push at heq
  split at heq
  · simp only [mk.injEq] at heq
    obtain ⟨hbefore, hlast⟩ := List.append_inj' heq.1 rfl
    exact ⟨by simp [hbefore, heq.2], by simpa using hlast⟩
  · simp only [mk.injEq, Option.some.injEq] at heq
    obtain ⟨hafter, hlast⟩ := List.append_inj' heq.2.1 rfl
    subst hafter
    refine ⟨?_, by simpa using hlast⟩
    have hnone : index = none ↔ index' = none := h.index_none.trans h'.index_none.symm
    have hindex : index = index' := by
      cases index with
      | none => exact (hnone.mp rfl).symm
      | some c =>
        cases index' with
        | none => cases hnone.mpr rfl
        | some c' => simpa using heq.2.2
    simp [heq.1, hindex]

theorem push_push (h : l.index.isSome) (hne : runs ≠ 0) :
    l.push (runs + 1) a = l.push runs a := by
  obtain ⟨c, hc⟩ := Option.isSome_iff_exists.mp h
  simp [push, hne, hc]

end Lane

structure Sorted (ρ φ π : Type) where
  runs : List ρ
  left : Lane φ
  right : Lane π

namespace Sorted

def empty : Sorted ρ φ π := ⟨[], ⟨[], [], none⟩, ⟨[], [], none⟩⟩

def push (s : Sorted ρ φ π) : Item ρ φ π → Sorted ρ φ π
  | .run r => { s with runs := s.runs ++ [r] }
  | .left f => { s with left := s.left.push s.runs.length f }
  | .right p => { s with right := s.right.push s.runs.length p }

structure Ok (s : Sorted ρ φ π) : Prop where
  left : s.left.Ok s.runs.length
  right : s.right.Ok s.runs.length

structure Tight (s : Sorted ρ φ π) : Prop where
  before : s.left.before = [] ∨ s.right.before = []
  left : s.left.Tight s.runs.length
  right : s.right.Tight s.runs.length
  apart : s.left.index = none ∨ s.left.index ≠ s.right.index

variable {s t : Sorted ρ φ π} {x y : Item ρ φ π}

theorem Ok.empty : (empty : Sorted ρ φ π).Ok := by
  constructor <;> exact ⟨by simp [Sorted.empty], by simp [Sorted.empty]⟩

theorem Ok.push (h : s.Ok) (x : Item ρ φ π) : (s.push x).Ok := by
  cases x with
  | run r =>
    constructor
    · simpa [Sorted.push] using h.left.succ
    · simpa [Sorted.push] using h.right.succ
  | left f => exact ⟨h.left.push f, h.right⟩
  | right p => exact ⟨h.left, h.right.push p⟩

theorem Tight.of_push (h : s.Ok) (ht : (s.push x).Tight) : s.Tight := by
  cases x with
  | run r =>
    have hleft := ht.left
    have hright := ht.right
    simp only [Sorted.push, List.length_append, List.length_singleton, h.left.tight_succ,
      h.right.tight_succ] at hleft hright
    exact ⟨ht.before, .inl hleft, .inl hright, ht.apart⟩
  | left f =>
    refine ⟨?_, Lane.Tight.of_push h.left ht.left, ht.right, ?_⟩
    · have hbefore := ht.before
      simp only [Sorted.push, Lane.push] at hbefore
      split at hbefore
      · exact .inr (by simpa using hbefore)
      · exact hbefore
    · have hapart := ht.apart
      simp only [Sorted.push, Lane.push] at hapart
      split at hapart
      · exact hapart
      · cases hindex : s.left.index with
        | none => exact .inl rfl
        | some c => exact .inr (by simpa [hindex] using hapart)
  | right p =>
    refine ⟨?_, ht.left, Lane.Tight.of_push h.right ht.right, ?_⟩
    · have hbefore := ht.before
      simp only [Sorted.push, Lane.push] at hbefore
      split at hbefore
      · exact .inl (by simpa using hbefore)
      · exact hbefore
    · have hapart := ht.apart
      simp only [Sorted.push, Lane.push] at hapart
      split at hapart
      · exact hapart
      · cases hindex : s.right.index with
        | none => exact (Option.eq_none_or_eq_some s.left.index).imp id (by
            rintro ⟨c, hc⟩
            simp [hc])
        | some c => simpa [hindex] using hapart

theorem Lane.Tight.no_run {n : Nat} {l l' : Lane α} {a : α} (h : l.Ok n) (h' : l'.Ok (n + 1))
    (ht : l.Tight (n + 1)) : l ≠ l'.push (n + 1) a := by
  intro heq
  subst heq
  exact h.index_ne_succ (Lane.Tight.index_of_push h' ht (by omega))

theorem ne_of_kinds {f : φ} {p : π} (hl : s.left.Ok s.runs.length) (hr : t.right.Ok t.runs.length)
    (ht : (s.push (.left f)).Tight) : s.push (.left f) ≠ t.push (.right p) := by
  intro heq
  have ht' : (t.push (.right p)).Tight := heq ▸ ht
  simp only [push, mk.injEq] at heq
  obtain ⟨hruns, -, hright⟩ := heq
  by_cases hzero : s.runs.length = 0
  · have hbefore := ht.before
    simp only [push, hright, hzero, ← hruns, Lane.push, if_true] at hbefore
    simp at hbefore
  · have hli := Lane.Tight.index_of_push hl ht.left hzero
    have hri := Lane.Tight.index_of_push hr ht'.right (hruns ▸ hzero)
    have hapart := ht.apart
    simp only [push] at hapart hri
    rw [hli, hright, hri, hruns] at hapart
    simp at hapart

theorem push_inj (h : s.Ok) (h' : t.Ok) (ht : (s.push x).Tight) (heq : s.push x = t.push y) :
    s = t ∧ x = y := by
  obtain ⟨runs, left, right⟩ := s
  obtain ⟨runs', left', right'⟩ := t
  have hmirror : (Sorted.push ⟨runs', left', right'⟩ y).Tight := heq ▸ ht
  have hl := h.left
  have hr := h.right
  have hl' := h'.left
  have hr' := h'.right
  cases x with
  | run r =>
    have htl := ht.left
    have htr := ht.right
    cases y with
    | run r' =>
      simp only [push, mk.injEq] at heq
      obtain ⟨hruns, hlast⟩ := List.append_inj' heq.1 rfl
      exact ⟨by simp [hruns, heq.2], by simpa using hlast⟩
    | left f =>
      simp only [push, mk.injEq] at heq htl
      obtain ⟨rfl, hleft, -⟩ := heq
      simp only [List.length_append, List.length_singleton] at hleft hl' htl
      exact absurd hleft (Lane.Tight.no_run hl hl' htl)
    | right p =>
      simp only [push, mk.injEq] at heq htr
      obtain ⟨rfl, -, hright⟩ := heq
      simp only [List.length_append, List.length_singleton] at hright hr' htr
      exact absurd hright (Lane.Tight.no_run hr hr' htr)
  | left f =>
    cases y with
    | run r =>
      have htl := hmirror.left
      simp only [push, mk.injEq] at heq htl
      obtain ⟨rfl, hleft, -⟩ := heq
      simp only [List.length_append, List.length_singleton] at hleft hl htl
      exact absurd hleft.symm (Lane.Tight.no_run hl' hl htl)
    | left f' =>
      simp only [push, mk.injEq] at heq
      obtain ⟨rfl, hleft, rfl⟩ := heq
      obtain ⟨rfl, rfl⟩ := Lane.push_inj hl hl' hleft
      exact ⟨rfl, rfl⟩
    | right p => exact absurd heq (ne_of_kinds hl hr' ht)
  | right p =>
    cases y with
    | run r =>
      have htr := hmirror.right
      simp only [push, mk.injEq] at heq htr
      obtain ⟨rfl, -, hright⟩ := heq
      simp only [List.length_append, List.length_singleton] at hright hr htr
      exact absurd hright.symm (Lane.Tight.no_run hr' hr htr)
    | left f => exact absurd heq.symm (ne_of_kinds hl' hr hmirror)
    | right p' =>
      simp only [push, mk.injEq] at heq
      obtain ⟨rfl, rfl, hright⟩ := heq
      obtain ⟨rfl, rfl⟩ := Lane.push_inj hr hr' hright
      exact ⟨rfl, rfl⟩

end Sorted

/-! ## Whole sequences -/

def sort (items : List (Item ρ φ π)) : Sorted ρ φ π := items.foldl Sorted.push .empty

def afterRun (items : List (Item ρ φ π)) : List (Item ρ φ π) :=
  items.dropWhile fun item => !item.isRun

/-- Two neighbours behind `items` that can change places unseen: inserts of different kinds; or a
run and an insert of a kind that occurred after a run before. -/
def Item.Swappable (items : List (Item ρ φ π)) : Item ρ φ π → Item ρ φ π → Prop
  | left _, right _ => True
  | right _, left _ => True
  | run _, left _ => (afterRun items).any isLeft
  | left _, run _ => (afterRun items).any isLeft
  | run _, right _ => (afterRun items).any isRight
  | right _, run _ => (afterRun items).any isRight
  | _, _ => False

def Exchangeable (items : List (Item ρ φ π)) : Prop :=
  ∃ pre x y post, items = pre ++ x :: y :: post ∧ Item.Swappable pre x y

section
variable {items : List (Item ρ φ π)} {x y : Item ρ φ π}

theorem sort_append_singleton (items : List (Item ρ φ π)) (x : Item ρ φ π) :
    sort (items ++ [x]) = (sort items).push x := by
  simp [sort]

theorem ok_sort (items : List (Item ρ φ π)) : (sort items).Ok := by
  induction items using List.reverseRecOn with
  | nil => exact Sorted.Ok.empty
  | append_singleton items x ih =>
    rw [sort_append_singleton]
    exact ih.push x

theorem afterRun_append_singleton (items : List (Item ρ φ π)) (x : Item ρ φ π) :
    afterRun (items ++ [x]) =
      if afterRun items = [] then (if x.isRun then [x] else []) else afterRun items ++ [x] := by
  rw [afterRun, List.dropWhile_append, ← afterRun]
  by_cases h : afterRun items = []
  · cases x <;> simp [h, Item.isRun]
  · simp [h]

theorem afterRun_eq_nil : afterRun items = [] ↔ (sort items).runs = [] := by
  induction items using List.reverseRecOn with
  | nil => simp [afterRun, sort, Sorted.empty]
  | append_singleton items x ih =>
    rw [afterRun_append_singleton, sort_append_singleton]
    by_cases h : afterRun items = []
    · cases x <;> simp [h, Sorted.push, Item.isRun, ih.mp h]
    · have hruns := mt ih.mpr h
      cases x <;> simp [h, Sorted.push, hruns]

theorem isSome_index (items : List (Item ρ φ π)) :
    ((sort items).left.index.isSome = (afterRun items).any Item.isLeft) ∧
    ((sort items).right.index.isSome = (afterRun items).any Item.isRight) := by
  induction items using List.reverseRecOn with
  | nil => simp [afterRun, sort, Sorted.empty]
  | append_singleton items x ih =>
    rw [afterRun_append_singleton, sort_append_singleton]
    by_cases h : afterRun items = []
    · rw [h] at ih
      have hruns := afterRun_eq_nil.mp h
      cases x <;> simp [h, Sorted.push, Lane.push, hruns, Item.isRun, ih, Item.isLeft, Item.isRight]
    · have hruns := mt afterRun_eq_nil.mpr h
      cases x <;> simp [h, Sorted.push, Lane.push, hruns, ih, Item.isLeft, Item.isRight]

theorem Sorted.push_comm_kinds (s : Sorted ρ φ π) (f : φ) (p : π) :
    (s.push (.left f)).push (.right p) = (s.push (.right p)).push (.left f) := rfl

theorem Sorted.push_comm_left {s : Sorted ρ φ π} (h : s.Ok) (hsome : s.left.index.isSome) (r : ρ)
    (f : φ) : (s.push (.run r)).push (.left f) = (s.push (.left f)).push (.run r) := by
  obtain ⟨c, hc⟩ := Option.isSome_iff_exists.mp hsome
  have hne : s.runs.length ≠ 0 := by
    have := h.left.le c hc
    omega
  simp [Sorted.push, Lane.push_push hsome hne]

theorem Sorted.push_comm_right {s : Sorted ρ φ π} (h : s.Ok) (hsome : s.right.index.isSome) (r : ρ)
    (p : π) : (s.push (.run r)).push (.right p) = (s.push (.right p)).push (.run r) := by
  obtain ⟨c, hc⟩ := Option.isSome_iff_exists.mp hsome
  have hne : s.runs.length ≠ 0 := by
    have := h.right.le c hc
    omega
  simp [Sorted.push, Lane.push_push hsome hne]

theorem Sorted.push_ne_empty (s : Sorted ρ φ π) (x : Item ρ φ π) : s.push x ≠ .empty := by
  intro heq
  cases x with
  | run r => simp [Sorted.push, Sorted.empty] at heq
  | left f =>
    simp only [Sorted.push, Sorted.empty, Lane.push, Sorted.mk.injEq] at heq
    split at heq <;> simp at heq
  | right p =>
    simp only [Sorted.push, Sorted.empty, Lane.push, Sorted.mk.injEq] at heq
    split at heq <;> simp at heq

theorem Item.Swappable.push_comm (h : Item.Swappable items x y) :
    ((sort items).push x).push y = ((sort items).push y).push x ∧ x ≠ y := by
  have hok := ok_sort items
  obtain ⟨hleft, hright⟩ := isSome_index items
  cases x with
  | run r =>
    cases y with
    | run r' => cases h
    | left f => exact ⟨Sorted.push_comm_left hok (hleft.trans h) r f, by simp⟩
    | right p => exact ⟨Sorted.push_comm_right hok (hright.trans h) r p, by simp⟩
  | left f =>
    cases y with
    | run r => exact ⟨(Sorted.push_comm_left hok (hleft.trans h) r f).symm, by simp⟩
    | left f' => cases h
    | right p => exact ⟨Sorted.push_comm_kinds _ f p, by simp⟩
  | right p =>
    cases y with
    | run r => exact ⟨(Sorted.push_comm_right hok (hright.trans h) r p).symm, by simp⟩
    | left f => exact ⟨(Sorted.push_comm_kinds _ f p).symm, by simp⟩
    | right p' => cases h

theorem Exchangeable.exists_ne (h : Exchangeable items) :
    ∃ items', items'.Perm items ∧ sort items' = sort items ∧ items' ≠ items := by
  obtain ⟨pre, x, y, post, rfl, hswap⟩ := h
  obtain ⟨hcomm, hne⟩ := hswap.push_comm
  refine ⟨pre ++ y :: x :: post, (List.Perm.swap x y post).append_left pre, ?_, ?_⟩
  · simp only [sort, List.foldl_append, List.foldl_cons]
    exact congrArg (List.foldl Sorted.push · post) hcomm.symm
  · intro heq
    have htail := List.append_cancel_left heq
    exact hne (List.cons.inj htail).1.symm

theorem Exchangeable.append (h : Exchangeable items) (x : Item ρ φ π) :
    Exchangeable (items ++ [x]) := by
  obtain ⟨pre, y, z, post, rfl, hswap⟩ := h
  exact ⟨pre, y, z, post ++ [x], by simp, hswap⟩

theorem Item.Swappable.exchangeable (h : Item.Swappable items x y) :
    Exchangeable (items ++ [x] ++ [y]) := ⟨items, x, y, [], by simp, h⟩

end

/-! ## The two kinds of inserts in each other's place -/

def Item.mirror : Item ρ φ π → Item ρ π φ
  | run r => run r
  | left f => right f
  | right p => left p

def Sorted.mirror (s : Sorted ρ φ π) : Sorted ρ π φ := ⟨s.runs, s.right, s.left⟩

section
variable {items : List (Item ρ φ π)}

theorem sort_mirror (items : List (Item ρ φ π)) :
    sort (items.map Item.mirror) = (sort items).mirror := by
  induction items using List.reverseRecOn with
  | nil => rfl
  | append_singleton items x ih =>
    rw [List.map_append, List.map_singleton, sort_append_singleton, sort_append_singleton, ih]
    cases x <;> rfl

theorem Sorted.Tight.mirror {s : Sorted ρ φ π} (h : s.Tight) : s.mirror.Tight := by
  refine ⟨h.before.symm, h.right, h.left, ?_⟩
  show s.right.index = none ∨ s.right.index ≠ s.left.index
  by_cases hright : s.right.index = none
  · exact .inl hright
  · rcases h.apart with hleft | hne
    · exact .inr fun heq => hright (heq.trans hleft)
    · exact .inr hne.symm

theorem Exchangeable.mirror (h : Exchangeable (items.map Item.mirror)) : Exchangeable items := by
  obtain ⟨pre, x, y, post, heq, hswap⟩ := h
  obtain ⟨pre, rest, rfl, rfl, hrest⟩ := List.map_eq_append_iff.mp heq
  obtain ⟨x, rest, rfl, rfl, hrest'⟩ := List.map_eq_cons_iff.mp hrest
  obtain ⟨y, post, rfl, rfl, -⟩ := List.map_eq_cons_iff.mp hrest'
  refine ⟨pre, x, y, post, rfl, ?_⟩
  obtain ⟨hleft, hright⟩ := isSome_index (pre.map Item.mirror)
  obtain ⟨hleft', hright'⟩ := isSome_index pre
  rw [sort_mirror] at hleft hright
  have hlr := hleft.symm.trans hright'
  have hrl := hright.symm.trans hleft'
  cases x <;> cases y <;> simp_all [Item.Swappable, Item.mirror]

end

/-! ## Sequences that can be read back -/

section
variable {items : List (Item ρ φ π)}

theorem after_le_one {r : ρ} (hnot : ¬ Exchangeable (items ++ [.run r]))
    (ht : (sort items).Tight) : (sort items).left.after.length ≤ 1 := by
  rcases ht.left with hone | hindex
  · exact hone
  · rcases List.eq_nil_or_concat' items with rfl | ⟨pre, y, rfl⟩
    · simp [sort, Sorted.empty]
    · have hok := ok_sort pre
      rw [sort_append_singleton] at hindex ht ⊢
      cases y with
      | run r' =>
        simp only [Sorted.push, List.length_append, List.length_singleton] at hindex
        exact absurd hindex hok.left.index_ne_succ
      | left f =>
        have hnone : (sort pre).left.index = none := by
          by_contra hsome
          have hany := (isSome_index pre).1.symm.trans (Option.isSome_iff_ne_none.mpr hsome)
          exact hnot (Item.Swappable.exchangeable (x := .left f) (y := .run r) hany)
        have hempty := hok.left.index_none.mp hnone
        simp only [Sorted.push, Lane.push]
        split <;> simp [hempty]
      | right p =>
        have hne : (sort pre).runs.length ≠ 0 := by
          have := hok.left.le _ hindex
          simp only [Sorted.push] at this
          omega
        have hright := Lane.Tight.index_of_push hok.right ht.right hne
        rcases ht.apart with hnone | hapart
        · rw [hindex] at hnone
          cases hnone
        · exact absurd (hindex.trans hright.symm) hapart

theorem tight_run {r : ρ} (hnot : ¬ Exchangeable (items ++ [.run r]))
    (ht : (sort items).Tight) : ((sort items).push (.run r)).Tight := by
  have hmirror : ¬ Exchangeable (items.map Item.mirror ++ [(.run r : Item ρ π φ)]) := by
    intro h
    refine hnot (Exchangeable.mirror ?_)
    rw [List.map_append]
    exact h
  have hright := after_le_one hmirror (by rw [sort_mirror]; exact ht.mirror)
  rw [sort_mirror] at hright
  exact ⟨ht.before, .inl (after_le_one hnot ht), .inl hright, ht.apart⟩

theorem tight_left {f : φ} (hnot : ¬ Exchangeable (items ++ [.left f]))
    (ht : (sort items).Tight) : ((sort items).push (.left f)).Tight := by
  rcases List.eq_nil_or_concat' items with rfl | ⟨pre, y, rfl⟩
  · simp only [sort, List.foldl_nil, Sorted.empty, Sorted.push, Lane.push, List.length_nil, if_true]
    exact ⟨.inr rfl, .inl (by simp), .inl (by simp), .inl rfl⟩
  · have hok := ok_sort pre
    rw [sort_append_singleton] at ht ⊢
    cases y with
    | run r =>
      have hnone : (sort pre).left.index = none := by
        by_contra hsome
        have hany := (isSome_index pre).1.symm.trans (Option.isSome_iff_ne_none.mpr hsome)
        exact hnot (Item.Swappable.exchangeable (x := .run r) (y := .left f) hany)
      have hempty := hok.left.index_none.mp hnone
      have hne : ((sort pre).push (.run r)).runs.length ≠ 0 := by simp [Sorted.push]
      refine ⟨?_, .inl ?_, ht.right, .inr ?_⟩
      · simpa [Sorted.push, Lane.push] using ht.before
      · simp [Sorted.push, Lane.push, hempty]
      · simp only [Sorted.push, Lane.push, hnone, List.length_append, List.length_singleton,
          Nat.succ_ne_zero, if_false, Option.getD_none]
        exact hok.right.index_ne_succ.symm
    | left f' =>
      by_cases hzero : (sort pre).runs.length = 0
      · have hright : (sort pre).right.before = [] := by
          simpa [Sorted.push, Lane.push, hzero] using ht.before
        have hnone : (sort pre).left.index = none := by
          by_contra hsome
          obtain ⟨c, hc⟩ := Option.ne_none_iff_exists'.mp hsome
          have := hok.left.le c hc
          omega
        have hempty := hok.left.index_none.mp hnone
        exact ⟨.inr hright, .inl (by simp [Sorted.push, Lane.push, hzero, hempty]), ht.right,
          .inl (by simp [Sorted.push, Lane.push, hzero, hnone])⟩
      · have hindex := Lane.Tight.index_of_push hok.left ht.left hzero
        have hagain : (((sort pre).push (.left f')).push (.left f)).left.index =
            some (sort pre).runs.length := by
          simp only [Sorted.push] at hindex ⊢
          rw [Lane.push, if_neg hzero, hindex]
          rfl
        refine ⟨?_, .inr hagain, ht.right, .inr ?_⟩
        · simpa [Sorted.push, Lane.push, hzero] using ht.before
        · rw [hagain, ← hindex]
          refine ht.apart.resolve_left ?_
          rw [show ((sort pre).push (.left f')).left.index = _ from hindex]
          simp
    | right p =>
      exact absurd (Item.Swappable.exchangeable (x := .right p) (y := .left f) trivial) hnot

theorem tight_right {p : π} (hnot : ¬ Exchangeable (items ++ [.right p]))
    (ht : (sort items).Tight) : ((sort items).push (.right p)).Tight := by
  have hmirror : ¬ Exchangeable (items.map Item.mirror ++ [(.left p : Item ρ π φ)]) := by
    intro h
    refine hnot (Exchangeable.mirror ?_)
    rw [List.map_append]
    exact h
  have h := tight_left hmirror (by rw [sort_mirror]; exact ht.mirror)
  rw [sort_mirror] at h
  exact h.mirror

theorem tight_sort (hnot : ¬ Exchangeable items) : (sort items).Tight := by
  induction items using List.reverseRecOn with
  | nil => exact ⟨.inl rfl, .inl (by simp [sort, Sorted.empty]), .inl (by simp [sort, Sorted.empty]),
      .inl rfl⟩
  | append_singleton items x ih =>
    have ht := ih fun h => hnot (h.append x)
    rw [sort_append_singleton]
    cases x with
    | run r => exact tight_run hnot ht
    | left f => exact tight_left hnot ht
    | right p => exact tight_right hnot ht

theorem eq_of_sort_eq {items' : List (Item ρ φ π)} (ht : (sort items).Tight)
    (heq : sort items' = sort items) : items' = items := by
  induction items using List.reverseRecOn generalizing items' with
  | nil =>
    rcases List.eq_nil_or_concat' items' with rfl | ⟨items', y, rfl⟩
    · rfl
    · rw [sort_append_singleton] at heq
      exact absurd heq (Sorted.push_ne_empty _ y)
  | append_singleton items x ih =>
    rw [sort_append_singleton] at heq ht
    rcases List.eq_nil_or_concat' items' with rfl | ⟨items', y, rfl⟩
    · exact absurd heq.symm (Sorted.push_ne_empty _ x)
    · rw [sort_append_singleton] at heq
      obtain ⟨hrest, rfl⟩ := Sorted.push_inj (ok_sort items) (ok_sort items') ht heq.symm
      rw [ih (ht.of_push (ok_sort items)) hrest.symm]

theorem sort_unique_iff :
    (∀ items' : List (Item ρ φ π), sort items' = sort items → items' = items) ↔
      ¬ Exchangeable items := by
  constructor
  · intro h hexchange
    obtain ⟨items', -, heq, hne⟩ := hexchange.exists_ne
    exact hne (h items' heq)
  · intro hnot items' heq
    exact eq_of_sort_eq (tight_sort hnot) heq

end

end Ferrocrate.Lib
