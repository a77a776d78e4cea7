import Ferrocrate.Lib.Bytes

/-! Further readers and their laws: counts and texts behind their lengths, and lists of items that
one writer wrote. -/
namespace Ferrocrate.Lib

theorem toList_loop (bytes : ByteArray) (i : Nat) (r : List UInt8) :
    ByteArray.toList.loop bytes i r = r.reverse ++ bytes.data.toList.drop i := by
  induction i, r using ByteArray.toList.loop.induct bytes with
  | case1 i r h ih =>
    have hi : i < bytes.data.toList.length := h
    have hget : bytes.get! i = bytes.data.toList[i] := by
      rw [Array.getElem_toList]
      exact getElem!_pos bytes.data i hi
    rw [ByteArray.toList.loop, if_pos h, ih, List.reverse_cons, hget, List.append_assoc,
      List.singleton_append, List.getElem_cons_drop]
  | case2 i r h =>
    have hi : bytes.data.toList.length ≤ i := not_lt.mp h
    rw [ByteArray.toList.loop, if_neg h, List.drop_eq_nil_of_le hi, List.append_nil]

theorem toList_toByteArray (bytes : ByteArray) : bytes.toList.toByteArray = bytes := by
  have hlist : bytes.toList = bytes.data.toList := by
    rw [ByteArray.toList, toList_loop, List.reverse_nil, List.nil_append, List.drop_zero]
  apply ByteArray.ext
  apply Array.toList_inj.mp
  rw [List.toList_data_toByteArray, hlist]

theorem length_toUTF8 (text : String) : text.toUTF8.toList.length = text.utf8ByteSize := by
  rw [ByteArray.toList, toList_loop, List.reverse_nil, List.nil_append, List.drop_zero]
  rfl

namespace Reader
variable {ε α β : Type}

theorem u8_exact (e : ε) : Exact (u8 e) (fun b => [b]) := by
  intro bs a rest h
  cases bs with
  | nil => cases h
  | cons b bs =>
    cases h
    rfl

theorem take_exact {e : ε} {n : Nat} {bs taken rest : Bytes}
    (h : take e n bs = .ok (taken, rest)) : bs = taken ++ rest := by
  unfold take at h
  split at h
  · cases h
    exact (List.take_append_drop n bs).symm
  · cases h

/-- `r` reads back what `w` wrote for the values that are fit to be written. -/
def ReadsOn (p : α → Prop) (r : Reader ε α) (w : α → Bytes) : Prop :=
  ∀ a rest, p a → r (w a ++ rest) = .ok (a, rest)

def u32 (e : ε) : Reader ε Nat := fun bs =>
  if 4 ≤ bs.length then .ok (ofBe (bs.take 4), bs.drop 4) else .error e

theorem u32_readsOn (e : ε) : ReadsOn (· < 2 ^ 32) (u32 e) u32Be := by
  intro n rest hn
  have hl := length_u32Be n
  have hvalue := ofBe_u32Be hn
  simp [u32, hl, hvalue]

def many (r : Reader ε α) : Nat → Reader ε (List α)
  | 0 => pure []
  | n + 1 => do
    let a ← r
    let rest ← many r n
    pure (a :: rest)

theorem many_reads {p : α → Prop} {r : Reader ε α} {w : α → Bytes} (h : ReadsOn p r w) :
    ∀ as rest, (∀ a ∈ as, p a) → many r as.length (as.flatMap w ++ rest) = .ok (as, rest) := by
  intro as rest hp
  induction as with
  | nil => rfl
  | cons a as ih =>
    have hfirst := h a (as.flatMap w ++ rest) (hp a List.mem_cons_self)
    have hothers := ih fun b hb => hp b (List.mem_cons_of_mem _ hb)
    rw [List.flatMap_cons, List.append_assoc]
    exact (bind_of_ok hfirst).trans ((bind_of_ok hothers).trans rfl)

end Reader
end Ferrocrate.Lib
