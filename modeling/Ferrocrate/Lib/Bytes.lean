import Mathlib.Data.List.Induction
import Mathlib.Tactic.Ring

/-! Byte strings, fixed-width arrays and 64-bit integers, with the two laws that make a
reader and a writer of one format inverse to each other. -/
namespace Ferrocrate.Lib

abbrev Bytes := List UInt8

structure FixedBytes (n : Nat) where
  val : Bytes
  length_eq : val.length = n

namespace FixedBytes
variable {n : Nat}

theorem ext_val {a b : FixedBytes n} (h : a.val = b.val) : a = b := by
  cases a
  cases b
  cases h
  rfl

instance : DecidableEq (FixedBytes n) := fun a b =>
  decidable_of_iff (a.val = b.val) ⟨ext_val, congrArg val⟩

def zero (n : Nat) : FixedBytes n := ⟨List.replicate n 0, List.length_replicate⟩

def fill (n : Nat) (b : UInt8) : FixedBytes n := ⟨List.replicate n b, List.length_replicate⟩

@[simp] theorem length_val (a : FixedBytes n) : a.val.length = n := a.length_eq

def first {m : Nat} (k : Nat) (a : FixedBytes m) (h : k ≤ m) : FixedBytes k :=
  ⟨a.val.take k, by simp [a.length_eq, h]⟩

def after {m : Nat} (j : Nat) (a : FixedBytes m) : FixedBytes (m - j) :=
  ⟨a.val.drop j, by simp [a.length_eq]⟩

theorem sixteen_le : 16 ≤ 32 := by decide

end FixedBytes

def toBe : Nat → Nat → Bytes
  | 0, _ => []
  | k+1, n => toBe k (n / 256) ++ [UInt8.ofNat n]

def ofBe (bs : Bytes) : Nat := bs.foldl (fun acc b => acc * 256 + b.toNat) 0

@[simp] theorem length_toBe (k n : Nat) : (toBe k n).length = k := by
  induction k generalizing n with
  | zero => rfl
  | succ k ih => simp [toBe, ih]

def FixedBytes.ofNat (k n : Nat) : FixedBytes k := ⟨toBe k n, length_toBe k n⟩

theorem ofBe_append (bs : Bytes) (b : UInt8) : ofBe (bs ++ [b]) = ofBe bs * 256 + b.toNat := by
  simp [ofBe]

theorem ofBe_toBe (k n : Nat) : ofBe (toBe k n) = n % 256 ^ k := by
  induction k generalizing n with
  | zero => simp [toBe, ofBe, Nat.mod_one]
  | succ k ih =>
    have hb : (UInt8.ofNat n).toNat = n % 256 := by simp
    rw [toBe, ofBe_append, ih, hb, Nat.pow_succ, Nat.mul_comm (256 ^ k) 256, Nat.mod_mul]
    ring

theorem ofBe_lt (bs : Bytes) : ofBe bs < 256 ^ bs.length := by
  induction bs using List.reverseRecOn with
  | nil => simp [ofBe]
  | append_singleton bs b ih =>
    have hb : b.toNat < 256 := b.toNat_lt
    rw [ofBe_append, List.length_append, List.length_singleton, Nat.pow_succ]
    omega

theorem toBe_ofBe (bs : Bytes) : toBe bs.length (ofBe bs) = bs := by
  induction bs using List.reverseRecOn with
  | nil => rfl
  | append_singleton bs b ih =>
    have hb : b.toNat < 256 := b.toNat_lt
    have hdiv : (ofBe bs * 256 + b.toNat) / 256 = ofBe bs := by omega
    have hmod : UInt8.ofNat (ofBe bs * 256 + b.toNat) = b := by
      apply UInt8.toNat_inj.mp
      simp only [UInt8.toNat_ofNat']
      omega
    rw [List.length_append, List.length_singleton, toBe, ofBe_append, hdiv, hmod, ih]

theorem ofBe_inj {as bs : Bytes} (hl : as.length = bs.length) (h : ofBe as = ofBe bs) :
    as = bs := by
  rw [← toBe_ofBe as, ← toBe_ofBe bs, hl, h]

def u64Be (x : UInt64) : Bytes := toBe 8 x.toNat

def u32Be (n : Nat) : Bytes := toBe 4 n

@[simp] theorem length_u64Be (x : UInt64) : (u64Be x).length = 8 := length_toBe _ _

@[simp] theorem length_u32Be (n : Nat) : (u32Be n).length = 4 := length_toBe _ _

@[simp] theorem ofBe_u64Be (x : UInt64) : UInt64.ofNat (ofBe (u64Be x)) = x := by
  have hx := x.toNat_lt
  rw [u64Be, ofBe_toBe, Nat.mod_eq_of_lt (by omega)]
  simp

theorem u64Be_injective : Function.Injective u64Be := by
  intro x y h
  rw [← ofBe_u64Be x, ← ofBe_u64Be y, h]

theorem u64Be_ofBe {bs : Bytes} (h : bs.length = 8) : u64Be (UInt64.ofNat (ofBe bs)) = bs := by
  have hlt := ofBe_lt bs
  rw [h] at hlt
  have hn : (UInt64.ofNat (ofBe bs)).toNat = ofBe bs := by
    rw [UInt64.toNat_ofNat']
    exact Nat.mod_eq_of_lt (by omega)
  rw [u64Be, hn, ← h, toBe_ofBe]

theorem ofBe_u32Be {n : Nat} (h : n < 2 ^ 32) : ofBe (u32Be n) = n := by
  rw [u32Be, ofBe_toBe]
  exact Nat.mod_eq_of_lt (by omega)

/-! Checked and saturating arithmetic on `u64`. -/

def checkedAdd (x : UInt64) (n : Nat) : Option UInt64 :=
  if x.toNat + n < 2 ^ 64 then some (x + UInt64.ofNat n) else none

def checkedSub (x y : UInt64) : Option UInt64 := if y ≤ x then some (x - y) else none

def saturatingAdd (x y : Nat) : Nat := min (x + y) (2 ^ 64 - 1)

theorem toNat_checkedAdd {x y : UInt64} {n : Nat} (h : checkedAdd x n = some y) :
    y.toNat = x.toNat + n := by
  unfold checkedAdd at h
  split at h
  · rename_i hlt
    cases h
    rw [UInt64.toNat_add, UInt64.toNat_ofNat']
    have hx := x.toNat_lt
    omega
  · cases h

theorem checkedAdd_eq {x y : UInt64} {n : Nat} (h : checkedAdd x n = some y) :
    y = x + UInt64.ofNat n := by
  unfold checkedAdd at h
  split at h
  · exact (Option.some.inj h).symm
  · cases h

abbrev Reader (ε α : Type) := StateT Bytes (Except ε) α

namespace Reader
variable {ε α β : Type}

/-- `r` reads back whatever `w` wrote, and leaves what follows alone. -/
def Reads (r : Reader ε α) (w : α → Bytes) : Prop :=
  ∀ a rest, r (w a ++ rest) = .ok (a, rest)

def Exact (r : Reader ε α) (w : α → Bytes) : Prop :=
  ∀ bs a rest, r bs = .ok (a, rest) → bs = w a ++ rest

variable {r : Reader ε α} {f : α → Reader ε β}

theorem bind_of_ok {bs rest : Bytes} {a : α}
    (h : r bs = .ok (a, rest)) : (r >>= f) bs = f a rest := by
  simp only [bind, StateT.bind, h]
  rfl

theorem bind_eq_ok {bs rest : Bytes} {b : β} :
    (r >>= f) bs = .ok (b, rest) ↔ ∃ a mid, r bs = .ok (a, mid) ∧ f a mid = .ok (b, rest) := by
  simp only [bind, StateT.bind]
  cases h : r bs with
  | error e => simp [Except.bind]
  | ok p => cases p; simp [Except.bind]

def take (e : ε) (n : Nat) : Reader ε Bytes := fun bs =>
  if n ≤ bs.length then .ok (bs.take n, bs.drop n) else .error e

theorem take_append (e : ε) {n : Nat} (xs rest : Bytes) (h : xs.length = n) :
    take e n (xs ++ rest) = .ok (xs, rest) := by
  subst h
  simp [take]

def fixed (e : ε) (n : Nat) : Reader ε (FixedBytes n) := fun bs =>
  if h : n ≤ bs.length then .ok (⟨bs.take n, by simp [h]⟩, bs.drop n) else .error e

theorem fixed_reads (e : ε) (n : Nat) : Reads (fixed e n) FixedBytes.val := by
  intro a rest
  obtain ⟨xs, hl⟩ := a
  subst hl
  simp [fixed]

theorem fixed_exact (e : ε) (n : Nat) : Exact (fixed e n) FixedBytes.val := by
  intro bs a rest h
  unfold fixed at h
  split at h
  · cases h
    exact (List.take_append_drop n bs).symm
  · cases h

def u8 (e : ε) : Reader ε UInt8 := fun bs =>
  match bs with
  | [] => .error e
  | b :: rest => .ok (b, rest)

theorem u8_reads (e : ε) : Reads (u8 e) (fun b => [b]) := fun _ _ => rfl

def u64 (e : ε) : Reader ε UInt64 := fun bs =>
  if 8 ≤ bs.length then .ok (UInt64.ofNat (ofBe (bs.take 8)), bs.drop 8) else .error e

theorem u64_reads (e : ε) : Reads (u64 e) u64Be := by
  intro a rest
  have hl := length_u64Be a
  simp [u64, hl]

theorem u64_exact (e : ε) : Exact (u64 e) u64Be := by
  intro bs a rest h
  unfold u64 at h
  split at h
  · rename_i hn
    cases h
    rw [u64Be_ofBe (by simp [hn])]
    exact (List.take_append_drop 8 bs).symm
  · cases h

def whole (r : Reader ε α) (e : ε) (bs : Bytes) : Except ε α := do
  let (a, rest) ← r bs
  if rest = [] then .ok a else .error e

theorem whole_of_reads {w : α → Bytes} (h : Reads r w) (e : ε) (a : α) :
    whole r e (w a) = .ok a := by
  have hr : r (w a) = .ok (a, []) := by simpa using h a []
  simp [whole, hr, bind, Except.bind]

theorem whole_exact {w : α → Bytes} (h : Exact r w) {e : ε} {bs : Bytes} {a : α}
    (hr : whole r e bs = .ok a) : bs = w a := by
  unfold whole at hr
  cases hb : r bs with
  | error e' => simp [hb, bind, Except.bind] at hr
  | ok p =>
    obtain ⟨a', rest⟩ := p
    simp only [hb, bind, Except.bind] at hr
    split at hr
    · rename_i hrest
      cases hr
      simpa [hrest] using h bs a rest hb
    · cases hr

end Reader
end Ferrocrate.Lib
