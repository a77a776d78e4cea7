import Mathlib.Data.List.Sort
import Mathlib.Data.String.Basic

/-! Maps over an ordered key type, walked in key order: the ordered maps and sets of a standard
library, as the sorted list of their entries. -/
namespace Ferrocrate.Lib

structure OrdMap (K V : Type) [LinearOrder K] where
  entries : List (K × V)
  sorted : entries.Pairwise (fun a b => a.1 < b.1)

abbrev OrdSet (K : Type) [LinearOrder K] := OrdMap K Unit

theorem find_key_eq_some_iff {K V : Type} [DecidableEq K] {es : List (K × V)}
    (hnodup : (es.map Prod.fst).Nodup) {k : K} {v : V} :
    (es.find? fun e => e.1 = k).map Prod.snd = some v ↔ (k, v) ∈ es := by
  constructor
  · intro h
    obtain ⟨e, he, rfl⟩ := Option.map_eq_some_iff.mp h
    have hk : e.1 = k := by simpa using List.find?_some he
    exact hk ▸ List.mem_of_find?_eq_some he
  · intro h
    have hsome : (es.find? fun e => e.1 = k).isSome :=
      List.find?_isSome.mpr ⟨(k, v), h, decide_eq_true rfl⟩
    obtain ⟨e, he⟩ := Option.isSome_iff_exists.mp hsome
    have hk : e.1 = k := by simpa using List.find?_some he
    have hunique : e = (k, v) :=
      List.inj_on_of_nodup_map hnodup (List.mem_of_find?_eq_some he) h hk
    rw [he, hunique]
    rfl

namespace OrdMap
variable {K V : Type} [LinearOrder K]

def empty : OrdMap K V := ⟨[], List.Pairwise.nil⟩

instance [DecidableEq V] : DecidableEq (OrdMap K V) := fun a b =>
  decidable_of_iff (a.entries = b.entries) (by cases a; cases b; simp)

def get (m : OrdMap K V) (k : K) : Option V := (m.entries.find? fun e => e.1 = k).map Prod.snd

def contains (m : OrdMap K V) (k : K) : Bool := (m.get k).isSome

def keys (m : OrdMap K V) : List K := m.entries.map Prod.fst

theorem pairwise_insert {es : List (K × V)} (h : es.Pairwise (fun a b => a.1 < b.1)) (k : K)
    (v : V) : ((es.filter fun e => e.1 < k) ++ (k, v) :: es.filter fun e => k < e.1).Pairwise
      (fun a b => a.1 < b.1) := by
  refine List.pairwise_append.mpr ⟨h.filter _, List.pairwise_cons.mpr ⟨?_, h.filter _⟩, ?_⟩
  · intro e he
    exact of_decide_eq_true (List.mem_filter.mp he).2
  · intro a ha b hb
    have hak : a.1 < k := of_decide_eq_true (List.mem_filter.mp ha).2
    rcases List.mem_cons.mp hb with rfl | hb
    · exact hak
    · exact hak.trans (of_decide_eq_true (List.mem_filter.mp hb).2)

def insert (m : OrdMap K V) (k : K) (v : V) : OrdMap K V :=
  ⟨(m.entries.filter fun e => e.1 < k) ++ (k, v) :: m.entries.filter fun e => k < e.1,
    pairwise_insert m.sorted k v⟩

def retain (m : OrdMap K V) (p : K → V → Bool) : OrdMap K V :=
  ⟨m.entries.filter fun e => p e.1 e.2, m.sorted.filter _⟩

def map {W : Type} (m : OrdMap K V) (f : V → W) : OrdMap K W :=
  ⟨m.entries.map fun e => (e.1, f e.2), List.pairwise_map.mpr m.sorted⟩

def erase (m : OrdMap K V) (k : K) : OrdMap K V := m.retain fun k' _ => k' ≠ k

def modify (m : OrdMap K V) (k : K) (f : V → V) : OrdMap K V :=
  match m.get k with
  | some v => m.insert k (f v)
  | none => m

theorem nodup_keys (m : OrdMap K V) : m.keys.Nodup :=
  List.pairwise_map.mpr (m.sorted.imp ne_of_lt)

variable {k : K} {v : V}

theorem get_eq_some_iff (m : OrdMap K V) :
    m.get k = some v ↔ (k, v) ∈ m.entries := find_key_eq_some_iff m.nodup_keys

theorem ext_get {m n : OrdMap K V} (h : ∀ k, m.get k = n.get k) : m = n := by
  have hmem : ∀ e, e ∈ m.entries ↔ e ∈ n.entries := by
    rintro ⟨k, v⟩
    rw [← get_eq_some_iff, ← get_eq_some_iff, h]
  have hentries : m.entries = n.entries :=
    ((List.perm_ext_iff_of_nodup (List.Nodup.of_map _ m.nodup_keys)
      (List.Nodup.of_map _ n.nodup_keys)).mpr hmem).eq_of_pairwise
        (fun _ _ _ _ hab hba => absurd hba hab.asymm) m.sorted n.sorted
  cases m
  cases n
  cases hentries
  rfl

@[simp] theorem get_empty (k : K) : (empty : OrdMap K V).get k = none := rfl

theorem get_insert (m : OrdMap K V) (k k' : K) (v : V) :
    (m.insert k v).get k' = if k' = k then some v else m.get k' := by
  refine Option.ext fun w => ?_
  rw [get_eq_some_iff]
  show (k', w) ∈ _ ++ _ :: _ ↔ _
  split
  · next h => subst h; simp [eq_comm]
  · next h =>
    rw [get_eq_some_iff]
    simp only [List.mem_append, List.mem_cons, List.mem_filter, Prod.mk.injEq, h, false_and,
      false_or, decide_eq_true_eq]
    constructor
    · rintro (h | h) <;> exact h.1
    · intro hw
      exact (lt_or_gt_of_ne h).imp (fun hlt => ⟨hw, hlt⟩) (fun hgt => ⟨hw, hgt⟩)

theorem get_retain (m : OrdMap K V) (p : K → V → Bool) (k : K) :
    (m.retain p).get k = (m.get k).filter (p k) := by
  refine Option.ext fun v => ?_
  rw [get_eq_some_iff, Option.filter_eq_some_iff, get_eq_some_iff]
  exact List.mem_filter

@[simp] theorem keys_map {W : Type} (m : OrdMap K V) (f : V → W) : (m.map f).keys = m.keys := by
  simp [map, keys]

@[simp] theorem get_map {W : Type} (m : OrdMap K V) (f : V → W) (k : K) :
    (m.map f).get k = (m.get k).map f := by
  simp only [get, map, List.find?_map, Option.map_map]
  rfl

theorem mem_keys_iff (m : OrdMap K V) : k ∈ m.keys ↔ m.get k ≠ none := by
  rw [Option.ne_none_iff_exists', keys, List.mem_map]
  constructor
  · intro h
    obtain ⟨e, he, rfl⟩ := h
    exact ⟨e.2, m.get_eq_some_iff.mpr he⟩
  · intro h
    obtain ⟨v, hv⟩ := h
    exact ⟨(k, v), m.get_eq_some_iff.mp hv, rfl⟩

theorem get_erase (m : OrdMap K V) (k k' : K) :
    (m.erase k).get k' = if k' = k then none else m.get k' := by
  rw [erase, get_retain]
  split
  · next h => cases m.get k' <;> simp [h]
  · next h => cases m.get k' <;> simp [h]

theorem get_modify (m : OrdMap K V) (k k' : K) (f : V → V) :
    (m.modify k f).get k' = if k' = k then (m.get k').map f else m.get k' := by
  unfold modify
  cases hk : m.get k with
  | none =>
    split_ifs with h
    · rw [h, hk]
      rfl
    · rfl
  | some v =>
    simp only [get_insert]
    split_ifs with h
    · rw [h, hk]
      rfl
    · rfl

@[simp] theorem get_insert_self (m : OrdMap K V) (k : K) (v : V) :
    (m.insert k v).get k = some v := by
  rw [get_insert, if_pos rfl]

variable {m : OrdMap K V}

theorem get_insert_of_get_eq_none {k k' : K} (w : V)
    (hnew : m.get k = none) (hv : m.get k' = some v) : (m.insert k w).get k' = some v := by
  have hne : k' ≠ k := by
    rintro rfl
    rw [hnew] at hv
    cases hv
  rw [get_insert, if_neg hne]
  exact hv

@[simp] theorem get_erase_self (m : OrdMap K V) (k : K) : (m.erase k).get k = none := by
  rw [get_erase, if_pos rfl]

theorem erase_insert (m : OrdMap K V) (v : V) (h : m.get k = none) :
    (m.insert k v).erase k = m := by
  refine ext_get fun k' => ?_
  rw [get_erase, get_insert]
  split
  · next hk => rw [hk, h]
  · rfl

theorem nodup_entries (m : OrdMap K V) : m.entries.Nodup := List.Nodup.of_map _ m.nodup_keys

theorem erase_of_get_eq_none (h : m.get k = none) : m.erase k = m := by
  refine ext_get fun k' => ?_
  rw [get_erase]
  split
  · next hk => rw [hk, h]
  · rfl

theorem perm_insert (m : OrdMap K V) (k : K) (v : V) :
    (m.insert k v).entries.Perm ((k, v) :: (m.erase k).entries) := by
  have hnotin : (k, v) ∉ (m.erase k).entries := by
    rw [← get_eq_some_iff, get_erase_self]
    simp
  refine (List.perm_ext_iff_of_nodup (nodup_entries _)
    (List.nodup_cons.mpr ⟨hnotin, nodup_entries _⟩)).mpr ?_
  rintro ⟨k', w⟩
  rw [← get_eq_some_iff, get_insert, List.mem_cons, ← get_eq_some_iff, get_erase]
  by_cases hk : k' = k
  · simp [hk, eq_comm]
  · simp [hk]

theorem insert_of_get_eq_some (h : m.get k = some v) :
    m.insert k v = m := by
  refine ext_get fun k' => ?_
  rw [get_insert]
  split
  · next hk => rw [hk, h]
  · rfl

theorem insert_erase (h : m.get k = some v) :
    (m.erase k).insert k v = m := by
  refine ext_get fun k' => ?_
  rw [get_insert, get_erase]
  split
  · next hk => rw [hk, h]
  · rfl

theorem perm_erase (h : m.get k = some v) :
    m.entries.Perm ((k, v) :: (m.erase k).entries) := by
  have hperm := m.perm_insert k v
  rwa [insert_of_get_eq_some h] at hperm

end OrdMap
end Ferrocrate.Lib
