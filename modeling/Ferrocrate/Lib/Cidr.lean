import Mathlib.Algebra.Order.Group.Nat
import Mathlib.Data.Nat.Basic

/-! Blocks of IPv4 addresses: two blocks are nested or disjoint. -/
namespace Ferrocrate.Lib

structure Ipv4Net where
  addr : UInt32
  prefixLen : Nat
  prefixLen_le : prefixLen ≤ 32
deriving DecidableEq

namespace Ipv4Net

def new (addr : UInt32) (prefixLen : Nat) : Option Ipv4Net :=
  if h : prefixLen ≤ 32 then some ⟨addr, prefixLen, h⟩ else none

def size (net : Ipv4Net) : Nat := 2 ^ (32 - net.prefixLen)

def network (net : Ipv4Net) : UInt32 := .ofNat (net.addr.toNat / net.size * net.size)

def broadcast (net : Ipv4Net) : UInt32 :=
  .ofNat (net.addr.toNat / net.size * net.size + (net.size - 1))

def contains (net : Ipv4Net) (ip : UInt32) : Bool :=
  decide (net.network ≤ ip ∧ ip ≤ net.broadcast)

theorem size_pos (net : Ipv4Net) : 0 < net.size := Nat.two_pow_pos _

theorem size_mul (net : Ipv4Net) : net.size * 2 ^ net.prefixLen = 2 ^ 32 := by
  rw [size, ← Nat.pow_add, Nat.sub_add_cancel net.prefixLen_le]

theorem block_le (net : Ipv4Net) (ip : UInt32) : ip.toNat / net.size * net.size + net.size ≤ 2 ^ 32 := by
  have hlt : ip.toNat / net.size < 2 ^ net.prefixLen := by
    apply Nat.div_lt_of_lt_mul
    rw [net.size_mul]
    exact ip.toNat_lt
  calc ip.toNat / net.size * net.size + net.size
      = (ip.toNat / net.size + 1) * net.size := (Nat.succ_mul _ _).symm
    _ ≤ 2 ^ net.prefixLen * net.size := Nat.mul_le_mul_right _ hlt
    _ = 2 ^ 32 := by rw [Nat.mul_comm, net.size_mul]

theorem toNat_network (net : Ipv4Net) :
    net.network.toNat = net.addr.toNat / net.size * net.size := by
  have hpos := net.size_pos
  have hle := net.block_le net.addr
  rw [network, UInt32.toNat_ofNat', Nat.mod_eq_of_lt (by omega)]

theorem toNat_broadcast (net : Ipv4Net) :
    net.broadcast.toNat = net.network.toNat + (net.size - 1) := by
  have hpos := net.size_pos
  have hle := net.block_le net.addr
  rw [toNat_network, broadcast, UInt32.toNat_ofNat', Nat.mod_eq_of_lt (by omega)]

theorem contains_iff_le (net : Ipv4Net) (ip : UInt32) : net.contains ip = true ↔
    net.network.toNat ≤ ip.toNat ∧ ip.toNat < net.network.toNat + net.size := by
  have hpos := net.size_pos
  rw [contains, decide_eq_true_iff, UInt32.le_iff_toNat_le, UInt32.le_iff_toNat_le,
    toNat_broadcast]
  omega

theorem contains_iff (net : Ipv4Net) (ip : UInt32) :
    net.contains ip = true ↔ ip.toNat / net.size = net.addr.toNat / net.size := by
  have hpos := net.size_pos
  rw [contains_iff_le, toNat_network, Nat.div_eq_iff hpos]
  omega

theorem contains_network (net : Ipv4Net) : net.contains net.network = true := by
  rw [contains_iff, toNat_network, Nat.mul_div_cancel _ net.size_pos]

variable {outer inner : Ipv4Net}

theorem size_dvd_size (h : outer.prefixLen ≤ inner.prefixLen) :
    inner.size ∣ outer.size :=
  Nat.pow_dvd_pow 2 (by omega)

theorem div_size_eq (h : outer.prefixLen ≤ inner.prefixLen) {a b : Nat}
    (hab : a / inner.size = b / inner.size) : a / outer.size = b / outer.size := by
  obtain ⟨k, hk⟩ := size_dvd_size h
  rw [hk, ← Nat.div_div_eq_div_mul, hab, Nat.div_div_eq_div_mul]

theorem contains_network_of_contains
    (h : outer.prefixLen ≤ inner.prefixLen) {ip : UInt32} (houter : outer.contains ip = true)
    (hinner : inner.contains ip = true) : outer.contains inner.network = true := by
  have hsame := inner.contains_network
  rw [contains_iff] at *
  rw [← houter]
  exact div_size_eq h (hsame.trans hinner.symm)

def Apart (left right : Ipv4Net) : Prop :=
  ∀ ip, ¬(left.contains ip = true ∧ right.contains ip = true)

theorem Apart.symm {left right : Ipv4Net} (h : left.Apart right) : right.Apart left :=
  fun ip hip => h ip hip.symm

def Within (inner outer : Ipv4Net) : Prop :=
  ∀ ip, inner.contains ip = true → outer.contains ip = true

theorem Apart.mono {left right left' right' : Ipv4Net} (h : left.Apart right)
    (hleft : left'.Within left) (hright : right'.Within right) : left'.Apart right' :=
  fun ip hip => h ip ⟨hleft ip hip.1, hright ip hip.2⟩

theorem not_apart_iff (left right : Ipv4Net) : ¬left.Apart right ↔
    left.contains right.network = true ∨ right.contains left.network = true := by
  constructor
  · intro h
    obtain ⟨ip, hip⟩ := not_forall.mp h
    obtain ⟨hleft, hright⟩ := not_not.mp hip
    rcases Nat.le_total left.prefixLen right.prefixLen with hle | hle
    · exact .inl (contains_network_of_contains hle hleft hright)
    · exact .inr (contains_network_of_contains hle hright hleft)
  · rintro (h | h) hapart
    · exact hapart _ ⟨h, right.contains_network⟩
    · exact hapart _ ⟨left.contains_network, h⟩

theorem within_of_contains_addr (h : outer.prefixLen ≤ inner.prefixLen)
    (haddr : outer.contains inner.addr = true) : inner.Within outer := by
  intro ip hip
  rw [contains_iff] at *
  rw [← haddr]
  exact div_size_eq h hip

end Ipv4Net
end Ferrocrate.Lib
