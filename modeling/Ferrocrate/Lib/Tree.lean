import Mathlib.Data.Finset.Card
import Mathlib.Data.List.Pairwise
import Mathlib.Logic.Function.Basic
import Ferrocrate.Lib.Bytes

/-! A key-value tree whose scan is ordered by key. Keys are fixed-width byte strings,
compared as big-endian numbers: the order a database gives blobs of one length. -/
namespace Ferrocrate.Lib

class BlobKey (K : Type) where
  rank : K → Nat
  rank_injective : Function.Injective rank

instance : BlobKey UInt64 where
  rank := UInt64.toNat
  rank_injective := fun _ _ h => UInt64.toNat_inj.mp h

instance {n : Nat} : BlobKey (FixedBytes n) where
  rank a := ofBe a.val
  rank_injective := fun a b h => FixedBytes.ext_val (ofBe_inj (by simp) h)

theorem BlobKey.rank_inj {K : Type} [BlobKey K] {a b : K} : rank a = rank b ↔ a = b :=
  ⟨fun h => BlobKey.rank_injective h, fun h => h ▸ rfl⟩

structure Tree (K V : Type) [BlobKey K] where
  entries : List (K × V)
  sorted : entries.Pairwise (fun a b => BlobKey.rank a.1 < BlobKey.rank b.1)

namespace Tree
variable {K V : Type} [BlobKey K]
open BlobKey

def empty : Tree K V := ⟨[], List.Pairwise.nil⟩

def find (k : K) : List (K × V) → Option V
  | [] => none
  | (k', v) :: es => if rank k' = rank k then some v else find k es

def insert (k : K) (v : V) : List (K × V) → List (K × V)
  | [] => [(k, v)]
  | (k', v') :: es =>
    if rank k < rank k' then (k, v) :: (k', v') :: es
    else if rank k = rank k' then (k, v) :: es
    else (k', v') :: insert k v es

def erase (k : K) : List (K × V) → List (K × V)
  | [] => []
  | (k', v) :: es => if rank k' = rank k then es else (k', v) :: erase k es

theorem mem_insert_rank (k : K) (v : V) (es : List (K × V)) {e : K × V}
    (h : e ∈ insert k v es) : rank e.1 = rank k ∨ e ∈ es := by
  induction es with
  | nil => simp_all [insert]
  | cons x es ih =>
    unfold insert at h
    split at h
    · rcases List.mem_cons.mp h with rfl | h
      · exact .inl rfl
      · exact .inr h
    · split at h
      · rcases List.mem_cons.mp h with rfl | h
        · exact .inl rfl
        · exact .inr (List.mem_cons_of_mem _ h)
      · rcases List.mem_cons.mp h with rfl | h
        · exact .inr List.mem_cons_self
        · rcases ih h with h | h
          · exact .inl h
          · exact .inr (List.mem_cons_of_mem _ h)

variable {es : List (K × V)}

theorem sorted_insert (k : K) (v : V)
    (h : es.Pairwise (fun a b => rank a.1 < rank b.1)) :
    (insert k v es).Pairwise (fun a b => rank a.1 < rank b.1) := by
  induction es with
  | nil => simp [insert]
  | cons x es ih =>
    obtain ⟨hx, hes⟩ := List.pairwise_cons.mp h
    unfold insert
    split
    · rename_i hlt
      refine List.pairwise_cons.mpr ⟨?_, h⟩
      intro e he
      rcases List.mem_cons.mp he with rfl | he
      · exact hlt
      · exact Nat.lt_trans hlt (hx e he)
    · split
      · rename_i heq
        exact List.pairwise_cons.mpr ⟨fun e he => heq ▸ hx e he, hes⟩
      · refine List.pairwise_cons.mpr ⟨?_, ih hes⟩
        intro e he
        rcases mem_insert_rank k v es he with he | he
        · show rank x.1 < rank e.1
          omega
        · exact hx e he

theorem erase_sublist (k : K) (es : List (K × V)) : (erase k es).Sublist es := by
  induction es with
  | nil => exact .slnil
  | cons x es ih =>
    unfold erase
    split
    · exact List.sublist_cons_self _ _
    · exact ih.cons_cons _

def get (t : Tree K V) (k : K) : Option V := find k t.entries

def put (t : Tree K V) (k : K) (v : V) : Tree K V := ⟨insert k v t.entries, sorted_insert k v t.sorted⟩

def remove (t : Tree K V) (k : K) : Tree K V :=
  ⟨erase k t.entries, t.sorted.sublist (erase_sublist k t.entries)⟩

def contains (t : Tree K V) (k : K) : Bool := (t.get k).isSome

def size (t : Tree K V) : Nat := t.entries.length

@[simp] theorem get_empty (k : K) : (empty : Tree K V).get k = none := rfl

theorem find_insert (k k' : K) (v : V) (es : List (K × V)) :
    find k' (insert k v es) = if rank k = rank k' then some v else find k' es := by
  induction es with
  | nil => simp [insert, find]
  | cons x es ih =>
    unfold insert
    split
    · simp [find]
    · split
      · rename_i heq
        by_cases hk : rank k = rank k' <;> simp [find, ← heq, hk]
      · simp only [find, ih]
        split <;> split <;> first | rfl | omega

theorem get_put (t : Tree K V) (k k' : K) (v : V) :
    (t.put k v).get k' = if rank k = rank k' then some v else t.get k' :=
  find_insert k k' v t.entries

@[simp] theorem get_put_self (t : Tree K V) (k : K) (v : V) : (t.put k v).get k = some v := by
  simp [get_put]

theorem get_put_of_ne (t : Tree K V) {k k' : K} (v : V) (h : k' ≠ k) :
    (t.put k v).get k' = t.get k' := by
  rw [get_put, if_neg (fun he => h (rank_inj.mp he).symm)]

variable {k : K}

theorem find_none_of_lt (h : ∀ e ∈ es, rank k < rank e.1) :
    find k es = none := by
  induction es with
  | nil => rfl
  | cons x es ih =>
    have hx := h x List.mem_cons_self
    rw [find, if_neg (by omega), ih (fun e he => h e (List.mem_cons_of_mem _ he))]

theorem find_erase (k k' : K)
    (h : es.Pairwise (fun a b => rank a.1 < rank b.1)) :
    find k' (erase k es) = if rank k = rank k' then none else find k' es := by
  induction es with
  | nil => simp [erase, find]
  | cons x es ih =>
    obtain ⟨hx, hes⟩ := List.pairwise_cons.mp h
    unfold erase
    split
    · rename_i hk
      by_cases hk' : rank k = rank k'
      · rw [if_pos hk', find_none_of_lt]
        intro e he
        have hlt := hx e he
        omega
      · rw [if_neg hk', find, if_neg (by omega)]
    · rw [find, find, ih hes]
      split <;> split <;> first | rfl | omega

theorem get_remove (t : Tree K V) (k k' : K) :
    (t.remove k).get k' = if rank k = rank k' then none else t.get k' :=
  find_erase k k' t.sorted

@[simp] theorem get_remove_self (t : Tree K V) (k : K) : (t.remove k).get k = none := by
  simp [get_remove]

theorem get_remove_of_ne (t : Tree K V) {k k' : K} (h : k' ≠ k) :
    (t.remove k).get k' = t.get k' := by
  rw [get_remove, if_neg (fun he => h (rank_inj.mp he).symm)]

theorem insert_of_gt (v : V) (h : ∀ e ∈ es, rank e.1 < rank k) :
    insert k v es = es ++ [(k, v)] := by
  induction es with
  | nil => rfl
  | cons x es ih =>
    have hx := h x List.mem_cons_self
    rw [insert, if_neg (by omega), if_neg (by omega),
      ih (fun e he => h e (List.mem_cons_of_mem _ he)), List.cons_append]

theorem entries_put_of_gt (t : Tree K V) (v : V) (h : ∀ e ∈ t.entries, rank e.1 < rank k) :
    (t.put k v).entries = t.entries ++ [(k, v)] := insert_of_gt v h

theorem get_eq_some_iff (t : Tree K V) {v : V} : t.get k = some v ↔ (k, v) ∈ t.entries := by
  obtain ⟨es, hs⟩ := t
  show find k es = some v ↔ (k, v) ∈ es
  induction es with
  | nil => simp [find]
  | cons x es ih =>
    obtain ⟨k', v'⟩ := x
    obtain ⟨hx, hes⟩ := List.pairwise_cons.mp hs
    by_cases hk : rank k' = rank k
    · have hkk : k' = k := rank_inj.mp hk
      subst hkk
      rw [find, if_pos rfl]
      constructor
      · intro h
        cases h
        exact List.mem_cons_self
      · intro h
        rcases List.mem_cons.mp h with h | h
        · cases h; rfl
        · exact absurd (hx _ h) (Nat.lt_irrefl _)
    · rw [find, if_neg hk, ih hes, List.mem_cons]
      constructor
      · exact .inr
      · rintro (h | h)
        · cases h; exact absurd rfl hk
        · exact h

theorem get_isSome_iff (t : Tree K V) : (t.get k).isSome ↔ ∃ v, (k, v) ∈ t.entries := by
  rw [Option.isSome_iff_exists]
  simp only [get_eq_some_iff]

theorem nodup_keys (t : Tree K V) : (t.entries.map Prod.fst).Nodup := by
  rw [List.Nodup, List.pairwise_map]
  exact t.sorted.imp fun h heq => absurd h (by rw [heq]; exact Nat.lt_irrefl _)

theorem size_eq_card [DecidableEq K] (t : Tree K V) {s : Finset K}
    (h : ∀ k, k ∈ s ↔ (t.get k).isSome = true) : t.size = s.card := by
  have hs : s = (t.entries.map Prod.fst).toFinset := by
    ext k
    rw [h, get_isSome_iff, List.mem_toFinset, List.mem_map]
    constructor
    · rintro ⟨v, hv⟩
      exact ⟨(k, v), hv, rfl⟩
    · rintro ⟨⟨k', v⟩, hv, rfl⟩
      exact ⟨v, hv⟩
  rw [hs, List.toFinset_card_of_nodup t.nodup_keys, List.length_map]
  rfl

section View
variable {A : Type} [DecidableEq K] {t : Tree K V} {f : K → Option A} {code : A → V}

theorem get_put_update (h : ∀ k, t.get k = (f k).map code) (k : K) (a : A) (k' : K) :
    (t.put k (code a)).get k' = (Function.update f k (some a) k').map code := by
  by_cases hk : k' = k
  · subst hk
    simp
  · rw [get_put_of_ne _ _ hk, Function.update_of_ne hk, h]

theorem get_remove_update (h : ∀ k, t.get k = (f k).map code) (k k' : K) :
    (t.remove k).get k' = (Function.update f k none k').map code := by
  by_cases hk : k' = k
  · subst hk
    simp
  · rw [get_remove_of_ne _ hk, Function.update_of_ne hk, h]

end View

theorem entries_foldl_remove (es : List (K × V)) {rest : List (K × V)} (t : Tree K V)
    (h : t.entries = es ++ rest) : (es.foldl (fun t e => t.remove e.1) t).entries = rest := by
  induction es generalizing t with
  | nil => exact h
  | cons x es ih =>
    apply ih
    show erase x.1 t.entries = es ++ rest
    rw [h, List.cons_append, erase, if_pos rfl]

theorem sum_put_le (weight : V → Nat) (t : Tree K V) (k : K) (v : V) :
    ((t.put k v).entries.map fun e => weight e.2).sum
      ≤ (t.entries.map fun e => weight e.2).sum + weight v := by
  have hput : (t.put k v).entries = insert k v t.entries := rfl
  rw [hput]
  generalize t.entries = es
  induction es with
  | nil => simp [insert]
  | cons x es ih =>
    unfold insert
    split
    · simp only [List.map_cons, List.sum_cons]
      omega
    · split
      · simp only [List.map_cons, List.sum_cons]
        omega
      · simp only [List.map_cons, List.sum_cons] at ih ⊢
        omega

theorem size_put_le (t : Tree K V) (k : K) (v : V) : (t.put k v).size ≤ t.size + 1 := by
  simpa [size] using sum_put_le (fun _ => 1) t k v

end Tree
end Ferrocrate.Lib
