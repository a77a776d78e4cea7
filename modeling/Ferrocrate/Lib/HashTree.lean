import Mathlib.Algebra.Group.Nat.Defs
import Mathlib.Data.List.Basic
import Mathlib.Logic.Function.Basic

/-! Symbolic hash trees: the terms that collision-free leaf and node hashes cannot confuse. -/
namespace Ferrocrate.Lib

inductive HashTree (α : Type) where
  | leaf (a : α)
  | node (l r : HashTree α)
deriving DecidableEq

namespace HashTree
variable {α D : Type}

def eval (leaf : α → D) (node : D → D → D) : HashTree α → D
  | .leaf a => leaf a
  | .node l r => node (l.eval leaf node) (r.eval leaf node)

theorem eval_injective {leaf : α → D} {node : D → D → D} (hl : Function.Injective leaf)
    (hn : ∀ a b c d, node a b = node c d → a = c ∧ b = d) (hd : ∀ a b c, leaf a ≠ node b c)
    (s t : HashTree α) (h : s.eval leaf node = t.eval leaf node) : s = t := by
  induction s generalizing t with
  | leaf a =>
    cases t with
    | leaf b => exact congrArg HashTree.leaf (hl h)
    | node l r => exact absurd h (hd _ _ _)
  | node l r ihl ihr =>
    cases t with
    | leaf b => exact absurd h.symm (hd _ _ _)
    | node l' r' =>
      obtain ⟨h₁, h₂⟩ := hn _ _ _ _ h
      rw [ihl l' h₁, ihr r' h₂]

def leaves : HashTree α → List α
  | .leaf a => [a]
  | .node l r => l.leaves ++ r.leaves

def Perfect : Nat → HashTree α → Prop
  | 0, .leaf _ => True
  | d+1, .node l r => l.Perfect d ∧ r.Perfect d
  | _, _ => False

theorem Perfect.length_leaves {d : Nat} {t : HashTree α} (h : t.Perfect d) :
    t.leaves.length = 2 ^ d := by
  induction t generalizing d with
  | leaf a =>
    cases d with
    | zero => rfl
    | succ d => exact h.elim
  | node l r ihl ihr =>
    cases d with
    | zero => exact h.elim
    | succ d =>
      rw [leaves, List.length_append, ihl h.1, ihr h.2, Nat.pow_succ]
      omega

theorem Perfect.eq_of_leaves {d e : Nat} {s t : HashTree α} (hs : s.Perfect d) (ht : t.Perfect e)
    (h : s.leaves = t.leaves) : s = t := by
  have hde : d = e := by
    have hlen := congrArg List.length h
    rw [hs.length_leaves, ht.length_leaves] at hlen
    exact (Nat.pow_right_inj (by decide : 1 < 2)).mp hlen
  subst hde
  induction s generalizing d t with
  | leaf a =>
    cases d with
    | succ d => exact hs.elim
    | zero =>
      cases t with
      | node l r => exact ht.elim
      | leaf b => exact congrArg HashTree.leaf (List.cons.inj h).1
  | node l r ihl ihr =>
    cases d with
    | zero => exact hs.elim
    | succ d =>
      cases t with
      | leaf b => exact ht.elim
      | node l' r' =>
        have hlen : l.leaves.length = l'.leaves.length := by
          rw [hs.1.length_leaves, ht.1.length_leaves]
        obtain ⟨h₁, h₂⟩ := List.append_inj h hlen
        rw [ihl hs.1 h₁ ht.1, ihr hs.2 h₂ ht.2]

end HashTree
end Ferrocrate.Lib
