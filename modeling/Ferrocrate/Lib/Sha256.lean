import Ferrocrate.Lib.Bytes

/-! SHA-256 on byte strings, with 32-bit words as numbers below `2^32`. -/
namespace Ferrocrate.Lib.Sha256

def add32 (x y : Nat) : Nat := (x + y) % 2 ^ 32

def rotateRight (x n : Nat) : Nat := (x >>> n ||| x <<< (32 - n)) % 2 ^ 32

def roundConstants : List Nat :=
  [0x428a2f98, 0x71374491, 0xb5c0fbcf, 0xe9b5dba5, 0x3956c25b, 0x59f111f1, 0x923f82a4, 0xab1c5ed5,
    0xd807aa98, 0x12835b01, 0x243185be, 0x550c7dc3, 0x72be5d74, 0x80deb1fe, 0x9bdc06a7, 0xc19bf174,
    0xe49b69c1, 0xefbe4786, 0x0fc19dc6, 0x240ca1cc, 0x2de92c6f, 0x4a7484aa, 0x5cb0a9dc, 0x76f988da,
    0x983e5152, 0xa831c66d, 0xb00327c8, 0xbf597fc7, 0xc6e00bf3, 0xd5a79147, 0x06ca6351, 0x14292967,
    0x27b70a85, 0x2e1b2138, 0x4d2c6dfc, 0x53380d13, 0x650a7354, 0x766a0abb, 0x81c2c92e, 0x92722c85,
    0xa2bfe8a1, 0xa81a664b, 0xc24b8b70, 0xc76c51a3, 0xd192e819, 0xd6990624, 0xf40e3585, 0x106aa070,
    0x19a4c116, 0x1e376c08, 0x2748774c, 0x34b0bcb5, 0x391c0cb3, 0x4ed8aa4a, 0x5b9cca4f, 0x682e6ff3,
    0x748f82ee, 0x78a5636f, 0x84c87814, 0x8cc70208, 0x90befffa, 0xa4506ceb, 0xbef9a3f7, 0xc67178f2]

structure Words where
  a : Nat
  b : Nat
  c : Nat
  d : Nat
  e : Nat
  f : Nat
  g : Nat
  h : Nat

def initial : Words :=
  ⟨0x6a09e667, 0xbb67ae85, 0x3c6ef372, 0xa54ff53a, 0x510e527f, 0x9b05688c, 0x1f83d9ab, 0x5be0cd19⟩

def scheduleWord (window : List Nat) : Nat :=
  let x := window.getD 1 0
  let y := window.getD 14 0
  let s0 := rotateRight x 7 ^^^ rotateRight x 18 ^^^ x >>> 3
  let s1 := rotateRight y 17 ^^^ rotateRight y 19 ^^^ y >>> 10
  (window.getD 0 0 + s0 + window.getD 9 0 + s1) % 2 ^ 32

def round (s : Words) (k w : Nat) : Words :=
  let s1 := rotateRight s.e 6 ^^^ rotateRight s.e 11 ^^^ rotateRight s.e 25
  let ch := (s.e &&& s.f) ^^^ ((s.e ^^^ (2 ^ 32 - 1)) &&& s.g)
  let t1 := s.h + s1 + ch + k + w
  let s0 := rotateRight s.a 2 ^^^ rotateRight s.a 13 ^^^ rotateRight s.a 22
  let maj := (s.a &&& s.b) ^^^ (s.a &&& s.c) ^^^ (s.b &&& s.c)
  ⟨(t1 + (s0 + maj)) % 2 ^ 32, s.a, s.b, s.c, add32 s.d t1, s.e, s.f, s.g⟩

def rounds : List Nat → List Nat → Words → Words
  | [], _, s => s
  | k :: ks, window, s =>
    rounds ks (window.tail ++ [scheduleWord window]) (round s k (window.getD 0 0))

def compress (s : Words) (block : List Nat) : Words :=
  let t := rounds roundConstants block s
  ⟨add32 s.a t.a, add32 s.b t.b, add32 s.c t.c, add32 s.d t.d, add32 s.e t.e, add32 s.f t.f,
    add32 s.g t.g, add32 s.h t.h⟩

def pad (bs : Bytes) : Bytes :=
  bs ++ 128 :: (List.replicate ((119 - bs.length % 64) % 64) 0 ++ toBe 8 (8 * bs.length))

def blockWords : Nat → Bytes → List Nat
  | 0, _ => []
  | n + 1, bs => ofBe (bs.take 4) :: blockWords n (bs.drop 4)

def blocks : Nat → Bytes → List (List Nat)
  | 0, _ => []
  | n + 1, bs => blockWords 16 (bs.take 64) :: blocks n (bs.drop 64)

def digestWords (s : Words) : Bytes :=
  toBe 4 s.a ++ (toBe 4 s.b ++ (toBe 4 s.c ++ (toBe 4 s.d ++ (toBe 4 s.e ++ (toBe 4 s.f
    ++ (toBe 4 s.g ++ toBe 4 s.h))))))

def sha256 (bs : Bytes) : FixedBytes 32 :=
  let padded := pad bs
  ⟨digestWords ((blocks (padded.length / 64) padded).foldl compress initial), by simp [digestWords]⟩

/-! The same digest with the schedule window and the words as arguments, on which the kernel
evaluates a block several times faster. -/

def rotated (x n : Nat) : Nat :=
  Nat.mod (Nat.lor (Nat.shiftRight x n) (Nat.shiftLeft x (Nat.sub 32 n))) 4294967296

def scheduled (w0 w1 w9 w14 : Nat) : Nat :=
  Nat.mod (Nat.add (Nat.add (Nat.add w0
    (Nat.xor (Nat.xor (rotated w1 7) (rotated w1 18)) (Nat.shiftRight w1 3))) w9)
    (Nat.xor (Nat.xor (rotated w14 17) (rotated w14 19)) (Nat.shiftRight w14 10))) 4294967296

def mixed (e f g h k w : Nat) : Nat :=
  Nat.add (Nat.add (Nat.add (Nat.add h
    (Nat.xor (Nat.xor (rotated e 6) (rotated e 11)) (rotated e 25)))
    (Nat.xor (Nat.land e f) (Nat.land (Nat.xor e 4294967295) g))) k) w

def major (a b c : Nat) : Nat :=
  Nat.add (Nat.xor (Nat.xor (rotated a 2) (rotated a 13)) (rotated a 22))
    (Nat.xor (Nat.xor (Nat.land a b) (Nat.land a c)) (Nat.land b c))

def forced {α : Type} (n : Nat) (f : Nat → α) : α :=
  match n with
  | 0 => f 0
  | m + 1 => f (Nat.succ m)

theorem forced_eq {α : Type} (n : Nat) (f : Nat → α) : forced n f = f n := by
  cases n <;> rfl

def unrolledRounds : List Nat →
    (w0 w1 w2 w3 w4 w5 w6 w7 w8 w9 w10 w11 w12 w13 w14 w15 a b c d e f g h : Nat) → Words
  | [], _, _, _, _, _, _, _, _, _, _, _, _, _, _, _, _, a, b, c, d, e, f, g, h =>
    ⟨a, b, c, d, e, f, g, h⟩
  | k :: ks, w0, w1, w2, w3, w4, w5, w6, w7, w8, w9, w10, w11, w12, w13, w14, w15,
      a, b, c, d, e, f, g, h =>
    forced (scheduled w0 w1 w9 w14) fun w =>
    forced (mixed e f g h k w0) fun t =>
    forced (Nat.mod (Nat.add t (major a b c)) 4294967296) fun a' =>
    forced (Nat.mod (Nat.add d t) 4294967296) fun e' =>
    unrolledRounds ks w1 w2 w3 w4 w5 w6 w7 w8 w9 w10 w11 w12 w13 w14 w15 w a' a b c e' e f g

def unrolledCompress (s : Words) : List Nat → Words
  | [w0, w1, w2, w3, w4, w5, w6, w7, w8, w9, w10, w11, w12, w13, w14, w15] =>
    forced s.a fun a => forced s.b fun b => forced s.c fun c => forced s.d fun d =>
    forced s.e fun e => forced s.f fun f => forced s.g fun g => forced s.h fun h =>
    forced w0 fun w0 => forced w1 fun w1 => forced w2 fun w2 => forced w3 fun w3 =>
    forced w4 fun w4 => forced w5 fun w5 => forced w6 fun w6 => forced w7 fun w7 =>
    forced w8 fun w8 => forced w9 fun w9 => forced w10 fun w10 => forced w11 fun w11 =>
    forced w12 fun w12 => forced w13 fun w13 => forced w14 fun w14 => forced w15 fun w15 =>
    let t := unrolledRounds roundConstants w0 w1 w2 w3 w4 w5 w6 w7 w8 w9 w10 w11 w12 w13 w14 w15
      a b c d e f g h
    ⟨add32 a t.a, add32 b t.b, add32 c t.c, add32 d t.d, add32 e t.e, add32 f t.f, add32 g t.g,
      add32 h t.h⟩
  | block => compress s block

def unrolled (bs : Bytes) : FixedBytes 32 :=
  let padded := pad bs
  ⟨digestWords ((blocks (padded.length / 64) padded).foldl unrolledCompress initial),
    by simp [digestWords]⟩

theorem rounds_eq_unrolledRounds (ks : List Nat)
    (w0 w1 w2 w3 w4 w5 w6 w7 w8 w9 w10 w11 w12 w13 w14 w15 a b c d e f g h : Nat) :
    rounds ks [w0, w1, w2, w3, w4, w5, w6, w7, w8, w9, w10, w11, w12, w13, w14, w15]
        ⟨a, b, c, d, e, f, g, h⟩ =
      unrolledRounds ks w0 w1 w2 w3 w4 w5 w6 w7 w8 w9 w10 w11 w12 w13 w14 w15
        a b c d e f g h := by
  induction ks generalizing w0 w1 w2 w3 w4 w5 w6 w7 w8 w9 w10 w11 w12 w13 w14 w15
    a b c d e f g h with
  | nil => rfl
  | cons k ks ih =>
    rw [rounds, unrolledRounds]
    simp only [forced_eq]
    rw [← ih]
    rfl

theorem compress_eq_unrolledCompress (s : Words) (block : List Nat) :
    compress s block = unrolledCompress s block := by
  unfold unrolledCompress
  split
  · simp only [forced_eq]
    rw [compress, ← rounds_eq_unrolledRounds]
  · rfl

theorem sha256_eq_unrolled : sha256 = unrolled := by
  funext bs
  have hcompress : compress = unrolledCompress :=
    funext fun s => funext fun block => compress_eq_unrolledCompress s block
  rw [sha256, unrolled]
  simp only [hcompress]

example : ofBe (sha256 "abc".toUTF8.toList).val
    = 0xba7816bf8f01cfea414140de5dae2223b00361a396177a9cb410ff61f20015ad := by
  decide +kernel

end Ferrocrate.Lib.Sha256
