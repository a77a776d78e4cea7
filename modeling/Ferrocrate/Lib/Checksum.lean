import Ferrocrate.Lib.Bytes
import Mathlib.Data.Nat.ModEq

/-! One's complement sums of 16-bit words, and writing single words of a byte list. -/
namespace Ferrocrate.Lib

def addOnes (a b : Nat) : Nat := (a + b) % 65536 + (a + b) / 65536

def onesSum (words : List Nat) : Nat := words.foldl addOnes 0

theorem addOnes_le {a b : Nat} (ha : a ≤ 65535) (hb : b ≤ 65535) : addOnes a b ≤ 65535 := by
  unfold addOnes
  omega

theorem addOnes_mod (a b : Nat) : addOnes a b % 65535 = (a + b) % 65535 := by
  unfold addOnes
  omega

theorem addOnes_pos {a b : Nat} : 0 < addOnes a b ↔ 0 < a + b := by
  unfold addOnes
  omega

theorem foldl_addOnes {words : List Nat} (h : ∀ w ∈ words, w ≤ 65535) {a : Nat} (ha : a ≤ 65535) :
    words.foldl addOnes a ≤ 65535 ∧ words.foldl addOnes a % 65535 = (a + words.sum) % 65535 ∧
      (0 < words.foldl addOnes a ↔ 0 < a + words.sum) := by
  induction words generalizing a with
  | nil => exact ⟨ha, rfl, Iff.rfl⟩
  | cons w words ih =>
    have hw := h w List.mem_cons_self
    have ih := ih (fun w' hw' => h w' (List.mem_cons_of_mem w hw')) (addOnes_le ha hw)
    have hmod := addOnes_mod a w
    have hpos := @addOnes_pos a w
    simp only [List.foldl_cons, List.sum_cons]
    refine ⟨ih.1, ?_, ?_⟩
    · omega
    · rw [ih.2.2]
      omega

theorem onesSum_eq_iff {words : List Nat} (h : ∀ w ∈ words, w ≤ 65535) :
    onesSum words = 65535 ↔ words.sum % 65535 = 0 ∧ 0 < words.sum := by
  have hfold := foldl_addOnes h (Nat.zero_le 65535)
  unfold onesSum
  omega

def words : Bytes → List Nat
  | a :: b :: rest => (256 * a.toNat + b.toNat) :: words rest
  | [a] => [256 * a.toNat]
  | [] => []

theorem words_le (bs : Bytes) : ∀ w ∈ words bs, w ≤ 65535 := by
  induction bs using words.induct with
  | case1 a b rest ih =>
    intro w hw
    have ha := a.toNat_lt
    have hb := b.toNat_lt
    rcases List.mem_cons.mp hw with rfl | hw
    · omega
    · exact ih w hw
  | case2 a =>
    intro w hw
    have ha := a.toNat_lt
    simp only [words, List.mem_singleton] at hw
    omega
  | case3 => simp [words]

def wordAt (bs : Bytes) (i : Nat) : Nat := 256 * (bs.getD i 0).toNat + (bs.getD (i + 1) 0).toNat

def writeWord (bs : Bytes) (i : Nat) (hi lo : UInt8) : Bytes := (bs.set i hi).set (i + 1) lo

@[simp] theorem length_writeWord (bs : Bytes) (i : Nat) (hi lo : UInt8) :
    (writeWord bs i hi lo).length = bs.length := by
  simp [writeWord]

variable {bs : Bytes}

theorem sum_words_writeWord {i : Nat} (heven : i % 2 = 0) (hi : i + 1 < bs.length)
    (a b : UInt8) : (words (writeWord bs i a b)).sum + wordAt bs i =
      (words bs).sum + (256 * a.toNat + b.toNat) := by
  induction bs using words.induct generalizing i with
  | case1 x y rest ih =>
    cases i with
    | zero =>
      simp only [writeWord, wordAt, words, List.set_cons_zero, List.set_cons_succ, List.sum_cons,
        List.getD_cons_zero, List.getD_cons_succ]
      omega
    | succ i =>
      cases i with
      | zero => omega
      | succ i =>
        have h := ih (i := i) (by omega) (by simpa using hi)
        simp only [writeWord, wordAt, words, List.set_cons_succ, List.sum_cons,
          List.getD_cons_succ] at h ⊢
        omega
  | case2 x => simp at hi
  | case3 => simp at hi

theorem wordAt_le_sum {i : Nat} (heven : i % 2 = 0) (hi : i + 1 < bs.length) :
    wordAt bs i ≤ (words bs).sum := by
  have h := sum_words_writeWord heven hi 0 0
  simp only [UInt8.toNat_zero, Nat.mul_zero, Nat.add_zero] at h
  omega

theorem getD_writeWord {i : Nat} (hi : i + 1 < bs.length) (a b : UInt8) (j : Nat) :
    (writeWord bs i a b).getD j 0 =
      if j = i then a else if j = i + 1 then b else bs.getD j 0 := by
  simp only [writeWord, List.getD_eq_getElem?_getD, List.getElem?_set, List.length_set]
  by_cases h₁ : j = i
  · subst h₁
    simp [show j < bs.length by omega]
  · by_cases h₂ : j = i + 1
    · subst h₂
      simp [hi]
    · simp [h₁, h₂, Ne.symm h₁, Ne.symm h₂]

theorem wordAt_writeWord_self {i : Nat} (hi : i + 1 < bs.length) (a b : UInt8) :
    wordAt (writeWord bs i a b) i = 256 * a.toNat + b.toNat := by
  rw [wordAt, getD_writeWord hi, getD_writeWord hi, if_pos rfl, if_neg (by omega), if_pos rfl]

theorem wordAt_writeWord_of_ne {i j : Nat} (hi : i + 1 < bs.length) (a b : UInt8)
    (h : j + 1 < i ∨ i + 1 < j) : wordAt (writeWord bs i a b) j = wordAt bs j := by
  unfold wordAt
  rw [getD_writeWord hi, getD_writeWord hi, if_neg (by omega), if_neg (by omega),
    if_neg (by omega), if_neg (by omega)]

def slice (bs : Bytes) (base n : Nat) : Bytes := (bs.drop base).take n

variable {base n i : Nat}

theorem slice_writeWord (h : base ≤ i) (a b : UInt8) :
    slice (writeWord bs i a b) base n = writeWord (slice bs base n) (i - base) a b := by
  simp only [slice, writeWord, List.drop_set]
  rw [if_neg (by omega), if_neg (by omega), show i + 1 - base = i - base + 1 by omega,
    List.take_set, List.take_set]

theorem slice_writeWord_outside (h : i + 1 < base ∨ base + n ≤ i)
    (a b : UInt8) : slice (writeWord bs i a b) base n = slice bs base n := by
  rcases h with h | h
  · simp only [slice, writeWord, List.drop_set]
    rw [if_pos (by omega), if_pos (by omega)]
  · rw [slice_writeWord (by omega), writeWord]
    have hlen : (slice bs base n).length ≤ i - base := by
      simp only [slice, List.length_take]
      omega
    rw [List.set_eq_of_length_le (by simpa using Nat.le_succ_of_le hlen),
      List.set_eq_of_length_le hlen]

theorem wordAt_slice {base n j : Nat} (hj : j + 1 < n) :
    wordAt (slice bs base n) j = wordAt bs (base + j) := by
  simp only [wordAt, slice, List.getD_eq_getElem?_getD, List.getElem?_take, List.getElem?_drop]
  rw [if_pos (by omega), if_pos hj, Nat.add_assoc]

theorem sum_slice_writeWord (bs : Bytes) (hbase : base ≤ i)
    (heven : (i - base) % 2 = 0) (hn : i + 1 < base + n) (hlen : base + n ≤ bs.length)
    (a b : UInt8) : (words (slice (writeWord bs i a b) base n)).sum + wordAt bs i =
      (words (slice bs base n)).sum + (256 * a.toNat + b.toNat) := by
  have hword : wordAt (slice bs base n) (i - base) = wordAt bs i := by
    rw [wordAt_slice (by omega), Nat.add_sub_cancel' hbase]
  rw [slice_writeWord hbase, ← hword]
  apply sum_words_writeWord heven
  simp only [slice, List.length_take, List.length_drop]
  omega

end Ferrocrate.Lib
