import Mathlib.Data.List.Basic
import Mathlib.Data.List.Nodup
import Mathlib.Data.Fintype.EquivFin
import Mathlib.Logic.Relation
import Mathlib.Order.WellFounded
import Mathlib.Data.Finite.Prod
import Mathlib.Data.Set.Finite.Basic

/-! Layers of a dependency relation: each batch holds exactly the nodes whose dependencies all lie
in the batches before it. -/
namespace Ferrocrate.Lib
variable {α : Type}

def Ready (names : List α) (deps : α → List α) (done : List α) (a : α) : Prop :=
  a ∈ names ∧ a ∉ done ∧ ∀ d ∈ deps a, d ∈ done

def Layered (names : List α) (deps : α → List α) (batches : List (List α)) : Prop :=
  ∀ i batch, batches[i]? = some batch →
    batch.Nodup ∧ ∀ a, a ∈ batch ↔ Ready names deps (batches.take i).flatten a

namespace Layered
variable {names : List α} {deps : α → List α} {batches : List (List α)}

theorem nil : Layered names deps [] := by
  intro i batch h
  simp at h

variable {batch : List α}

theorem append (h : Layered names deps batches) (hnodup : batch.Nodup)
    (hmem : ∀ a, a ∈ batch ↔ Ready names deps batches.flatten a) :
    Layered names deps (batches ++ [batch]) := by
  intro i b hb
  rcases Nat.lt_trichotomy i batches.length with hlt | heq | hgt
  · rw [List.getElem?_append_left hlt] at hb
    rw [List.take_append_of_le_length hlt.le]
    exact h i b hb
  · subst heq
    have hbatch : batch = b := by simpa using hb
    rw [List.take_append_of_le_length le_rfl, List.take_length, ← hbatch]
    exact ⟨hnodup, hmem⟩
  · rw [List.getElem?_append_right hgt.le] at hb
    have : i - batches.length ≠ 0 := by omega
    simp [this] at hb

variable {a : α}

theorem mem_flatten_take {n : Nat} :
    a ∈ (batches.take n).flatten ↔ ∃ j < n, ∃ batch, batches[j]? = some batch ∧ a ∈ batch := by
  constructor
  · intro h
    obtain ⟨batch, hbatch, ha⟩ := List.mem_flatten.mp h
    obtain ⟨j, hj⟩ := List.mem_iff_getElem?.mp hbatch
    have hlt : j < n := by
      by_contra hge
      simp [hge] at hj
    rw [List.getElem?_take, if_pos hlt] at hj
    exact ⟨j, hlt, batch, hj, ha⟩
  · intro h
    obtain ⟨j, hlt, batch, hj, ha⟩ := h
    refine List.mem_flatten.mpr ⟨batch, List.mem_iff_getElem?.mpr ⟨j, ?_⟩, ha⟩
    rw [List.getElem?_take, if_pos hlt, hj]

theorem mem_flatten :
    a ∈ batches.flatten ↔ ∃ (j : Nat) (batch : List α), batches[j]? = some batch ∧ a ∈ batch := by
  constructor
  · intro h
    obtain ⟨batch, hbatch, ha⟩ := List.mem_flatten.mp h
    obtain ⟨j, hj⟩ := List.mem_iff_getElem?.mp hbatch
    exact ⟨j, batch, hj, ha⟩
  · intro h
    obtain ⟨j, batch, hj, ha⟩ := h
    exact List.mem_flatten.mpr ⟨batch, List.mem_iff_getElem?.mpr ⟨j, hj⟩, ha⟩

section
variable (h : Layered names deps batches)
include h

theorem mem_names (ha : a ∈ batches.flatten) :
    a ∈ names := by
  obtain ⟨j, batch, hj, hab⟩ := mem_flatten.mp ha
  exact (((h j batch hj).2 a).mp hab).1

theorem dep_earlier {i : Nat} {a d : α}
    (hi : batches[i]? = some batch) (ha : a ∈ batch) (hd : d ∈ deps a) :
    ∃ j < i, ∃ earlier, batches[j]? = some earlier ∧ d ∈ earlier := by
  have hready := ((h i batch hi).2 a).mp ha
  exact mem_flatten_take.mp (hready.2.2 d hd)

theorem index_unique {i j : Nat} {b c : List α}
    (hi : batches[i]? = some b) (hj : batches[j]? = some c) (hb : a ∈ b) (hc : a ∈ c) : i = j := by
  have hnot : ∀ {i j : Nat} {b c : List α}, batches[i]? = some b → batches[j]? = some c →
      a ∈ b → a ∈ c → ¬ i < j := by
    intro i j b c hi hj hb hc hlt
    exact (((h j c hj).2 a).mp hc).2.1 (mem_flatten_take.mpr ⟨i, hlt, b, hi, hb⟩)
  have h1 := hnot hi hj hb hc
  have h2 := hnot hj hi hc hb
  omega

theorem nodup_flatten : batches.flatten.Nodup := by
  rw [List.nodup_flatten]
  constructor
  · intro batch hbatch
    obtain ⟨i, hi⟩ := List.mem_iff_getElem?.mp hbatch
    exact (h i batch hi).1
  · rw [List.pairwise_iff_getElem]
    intro i j hi hj hlt a hb hc
    have := h.index_unique (List.getElem?_eq_getElem hi) (List.getElem?_eq_getElem hj) hb hc
    omega

theorem index_le {rank : α → Nat}
    (hrank : ∀ a ∈ names, ∀ d ∈ deps a, rank d < rank a) {i : Nat}
    (hi : batches[i]? = some batch) (ha : a ∈ batch) : i ≤ rank a := by
  induction i generalizing batch a with
  | zero => exact Nat.zero_le _
  | succ i ih =>
    have hready := ((h _ batch hi).2 a).mp ha
    have hlt : i < batches.length := by
      have := (List.getElem?_eq_some_iff.mp hi).1
      omega
    have hprev := List.getElem?_eq_getElem hlt
    -- some dependency lies in the batch right before, else the node was ready for that one
    have hdep : ∃ d ∈ deps a, d ∈ batches[i] := by
      by_contra hnone
      have hnot : a ∉ (batches.take i).flatten := by
        intro hmem
        obtain ⟨j, hj, b, hjb, hab⟩ := mem_flatten_take.mp hmem
        exact hready.2.1 (mem_flatten_take.mpr ⟨j, by omega, b, hjb, hab⟩)
      have hall : ∀ d ∈ deps a, d ∈ (batches.take i).flatten := by
        intro d hd
        obtain ⟨j, hj, b, hjb, hdb⟩ := mem_flatten_take.mp (hready.2.2 d hd)
        have hne : j ≠ i := by
          intro heq
          subst heq
          rw [hprev] at hjb
          exact hnone ⟨d, hd, by rwa [Option.some.inj hjb]⟩
        exact mem_flatten_take.mpr ⟨j, by omega, b, hjb, hdb⟩
      have hmem := ((h i _ hprev).2 a).mpr ⟨hready.1, hnot, hall⟩
      have := h.index_unique hprev hi hmem ha
      omega
    obtain ⟨d, hd, hdi⟩ := hdep
    have h1 := ih hprev hdi
    have h2 := hrank a hready.1 d hd
    omega

theorem findIdx_eq [DecidableEq α] {j : Nat}
    (hj : batches[j]? = some batch) (ha : a ∈ batch) : batches.findIdx (a ∈ ·) = j := by
  have hlt : batches.findIdx (a ∈ ·) < batches.length :=
    List.findIdx_lt_length_of_exists ⟨batch, List.mem_of_getElem? hj, by simpa using ha⟩
  have hmem : a ∈ batches[batches.findIdx (a ∈ ·)] := by
    simpa using List.findIdx_getElem (w := hlt)
  exact h.index_unique (List.getElem?_eq_getElem hlt) hj hmem ha

theorem index_le_index {other : List (List α)} {b b' : List α} (h' : Layered names deps other)
    (hall : ∀ a ∈ names, a ∈ other.flatten) {i j : Nat} (hi : batches[i]? = some b) (hb : a ∈ b)
    (hj : other[j]? = some b') (hb' : a ∈ b') : i ≤ j := by
  classical
  rw [← h'.findIdx_eq hj hb']
  have hrank : ∀ a ∈ names, ∀ d ∈ deps a, other.findIdx (d ∈ ·) < other.findIdx (a ∈ ·) := by
    intro a ha d hd
    obtain ⟨k, c, hk, hac⟩ := mem_flatten.mp (hall a ha)
    obtain ⟨m, hm, e, hme, hde⟩ := h'.dep_earlier hk hac hd
    rwa [h'.findIdx_eq hk hac, h'.findIdx_eq hme hde]
  exact h.index_le hrank hi hb

theorem same_index {other : List (List α)}
    (h' : Layered names deps other) (hall : ∀ a ∈ names, a ∈ batches.flatten)
    (hall' : ∀ a ∈ names, a ∈ other.flatten) {i : Nat} {a : α}
    (ha : ∃ batch, batches[i]? = some batch ∧ a ∈ batch) :
    ∃ batch, other[i]? = some batch ∧ a ∈ batch := by
  obtain ⟨batch, hi, hb⟩ := ha
  obtain ⟨j, b', hj, hb'⟩ := mem_flatten.mp
    (hall' a (h.mem_names (mem_flatten.mpr ⟨i, batch, hi, hb⟩)))
  have hij := h.index_le_index h' hall' hi hb hj hb'
  have hji := h'.index_le_index h hall hj hb' hi hb
  obtain rfl := Nat.le_antisymm hij hji
  exact ⟨b', hj, hb'⟩

theorem congr {names' : List α} {deps' : α → List α}
    (hnames : ∀ a, a ∈ names ↔ a ∈ names') (hdeps : ∀ a d, d ∈ deps a ↔ d ∈ deps' a) :
    Layered names' deps' batches := by
  intro i batch hi
  obtain ⟨hnodup, hmem⟩ := h i batch hi
  refine ⟨hnodup, fun a => (hmem a).trans ?_⟩
  simp only [Ready, hnames, hdeps]

theorem reached_earlier {a d : α}
    (hreach : Relation.TransGen (fun a d => d ∈ deps a) a d) {i : Nat}
    (hi : batches[i]? = some batch) (ha : a ∈ batch) :
    ∃ j < i, ∃ earlier, batches[j]? = some earlier ∧ d ∈ earlier := by
  induction hreach with
  | single hd => exact h.dep_earlier hi ha hd
  | tail _ hd ih =>
    obtain ⟨j, hj, b, hjb, hb⟩ := ih
    obtain ⟨k, hk, c, hkc, hc⟩ := h.dep_earlier hjb hb hd
    exact ⟨k, hk.trans hj, c, hkc, hc⟩

theorem acyclic (hall : ∀ a ∈ names, a ∈ batches.flatten)
    (hclosed : ∀ a d, d ∈ deps a → a ∈ names) (a : α) :
    ¬ Relation.TransGen (fun a d => d ∈ deps a) a a := by
  intro hcycle
  have hmem : a ∈ names := by
    obtain ⟨d, hd, -⟩ := Relation.TransGen.head'_iff.mp hcycle
    exact hclosed a d hd
  obtain ⟨i, batch, hi, ha⟩ := mem_flatten.mp (hall a hmem)
  obtain ⟨j, hj, b, hjb, hb⟩ := h.reached_earlier hcycle hi ha
  have := h.index_unique hi hjb ha hb
  omega

theorem pairwise_flatten :
    batches.flatten.Pairwise fun a b => ¬ Relation.TransGen (fun a d => d ∈ deps a) a b := by
  rw [List.pairwise_flatten]
  constructor
  · intro batch hbatch
    obtain ⟨i, hi⟩ := List.mem_iff_getElem?.mp hbatch
    rw [List.pairwise_iff_forall_sublist]
    intro a b hsub hreach
    have ha : a ∈ batch := hsub.subset (by simp)
    have hb : b ∈ batch := hsub.subset (by simp)
    obtain ⟨j, hj, c, hjc, hc⟩ := h.reached_earlier hreach hi ha
    have := h.index_unique hi hjc hb hc
    omega
  · rw [List.pairwise_iff_getElem]
    intro i j hi hj hlt a ha b hb hreach
    obtain ⟨k, hk, c, hkc, hc⟩ := h.reached_earlier hreach (List.getElem?_eq_getElem hi) ha
    have := h.index_unique (List.getElem?_eq_getElem hj) hkc hb hc
    omega

end

end Layered

theorem exists_ready {names : List α} {deps : α → List α}
    (hacyclic : ∀ a, ¬ Relation.TransGen (fun a d => d ∈ deps a) a a)
    (hclosed : ∀ a, ∀ d ∈ deps a, d ∈ names) {done : List α} {a : α} (ha : a ∈ names)
    (hdone : a ∉ done) : ∃ b, Ready names deps done b := by
  let rest : Set α := {b | b ∈ names ∧ b ∉ done}
  have hfinite : Finite rest := (List.finite_toSet names).subset (fun b hb => hb.1)
  let below : rest → rest → Prop := fun d b => Relation.TransGen (fun a d => d ∈ deps a) b.1 d.1
  have htrans : IsTrans rest below := ⟨fun _ _ _ h1 h2 => h2.trans h1⟩
  have hirrefl : Std.Irrefl below := ⟨fun b => hacyclic b.1⟩
  have hwf : WellFounded below := Finite.wellFounded_of_trans_of_irrefl below
  obtain ⟨m, -, hmin⟩ := hwf.has_min Set.univ ⟨⟨a, ha, hdone⟩, trivial⟩
  refine ⟨m.1, m.2.1, m.2.2, ?_⟩
  intro d hd
  by_contra hnot
  exact hmin ⟨d, hclosed m.1 d hd, hnot⟩ trivial (.single hd)

end Ferrocrate.Lib
