import Mathlib.Data.List.Induction

/-! Hash chains: records that each carry the hash of the one before. The last hash of a
chain fixes the records below it, as far as the hash separates them. -/
namespace Ferrocrate.Lib.HashChain
variable {R H : Type} (link hash : R → H)

/-- Each record links to the hash of the one before it, the first to `start`. -/
def Linked (start : H) : List R → Prop
  | [] => True
  | r :: rs => link r = start ∧ Linked (hash r) rs

def tip (start : H) (rs : List R) : H := rs.foldl (fun _ r => hash r) start

@[simp] theorem tip_append_singleton (start : H) (rs : List R) (r : R) :
    tip hash start (rs ++ [r]) = hash r := by
  simp [tip]

theorem linked_append (start : H) (xs ys : List R) :
    Linked link hash start (xs ++ ys) ↔
      Linked link hash start xs ∧ Linked link hash (tip hash start xs) ys := by
  induction xs generalizing start with
  | nil => simp [Linked, tip]
  | cons x xs ih =>
    rw [List.cons_append, Linked, Linked, ih, and_assoc]
    rfl

variable {rs : List R}

theorem linked_map {S : Type} {link : S → H} {hash : S → H} (f : R → S) {start : H}
    (h : Linked (fun r => link (f r)) (fun r => hash (f r)) start rs) :
    Linked link hash start (rs.map f) := by
  induction rs generalizing start with
  | nil => trivial
  | cons r rs ih => exact ⟨h.1, ih h.2⟩

theorem Linked.append_singleton {start : H} {r : R}
    (h : Linked link hash start rs) (hr : link r = tip hash start rs) :
    Linked link hash start (rs ++ [r]) :=
  (linked_append link hash start rs [r]).mpr ⟨h, hr, trivial⟩

theorem Linked.link_eq {start : H} (h : Linked link hash start rs) {i : Nat} {r : R}
    (hi : rs[i]? = some r) : link r = tip hash start (rs.take i) := by
  obtain ⟨hlt, rfl⟩ := List.getElem?_eq_some_iff.mp hi
  have hsplit : rs = rs.take i ++ rs[i] :: rs.drop (i + 1) := by
    rw [List.getElem_cons_drop, List.take_append_drop]
  have h' := h
  rw [hsplit, linked_append] at h'
  exact h'.2.1

theorem Linked.eq_of_tip_eq {start start' : H} {xs ys : List R}
    (hx : Linked link hash start xs) (hy : Linked link hash start' ys)
    (hl : xs.length = ys.length) (hinj : ∀ x ∈ xs, ∀ y ∈ ys, hash x = hash y → x = y)
    (ht : tip hash start xs = tip hash start' ys) : xs = ys := by
  induction xs using List.reverseRecOn generalizing ys with
  | nil => exact (List.length_eq_zero_iff.mp hl.symm).symm
  | append_singleton xs x ih =>
    rcases List.eq_nil_or_concat ys with rfl | ⟨zs, y, rfl⟩
    · simp at hl
    · rw [List.concat_eq_append] at *
      rw [tip_append_singleton, tip_append_singleton] at ht
      have hxy := hinj x (by simp) y (by simp) ht
      subst hxy
      obtain ⟨hxs, hxl, -⟩ := (linked_append link hash start xs [x]).mp hx
      obtain ⟨hzs, hzl, -⟩ := (linked_append link hash start' zs [x]).mp hy
      have hrest := ih hxs hzs (by simpa using hl)
        (fun a ha b hb => hinj a (List.mem_append_left _ ha) b (List.mem_append_left _ hb))
        (hxl.symm.trans hzl)
      rw [hrest]

end Ferrocrate.Lib.HashChain
