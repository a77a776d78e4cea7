import Ferrocrate.Log.JsonFile

/-! The files of a stream by their age: slot 0 is the current file, slot `i` the one rotated `i`
times. A rotation moves every file one slot up. -/
namespace Ferrocrate.Log
open Lib

def slot (path : String) : Nat → String
  | 0 => path
  | i + 1 => rotatedPath path (i + 1)

theorem journalPath_injective : Function.Injective journalPath := by
  intro a b h
  rw [journalPath, journalPath, String.append_left_inj] at h
  exact h

theorem slot_injective (path : String) : Function.Injective (slot path) := by
  have hne : ∀ i, path ≠ slot path (i + 1) := by
    intro i h
    have hlength := congrArg String.length h
    rw [slot, rotatedPath, String.length_append, String.length_append] at hlength
    have hdot : ".".length = 1 := rfl
    omega
  intro i j h
  cases i with
  | zero =>
    cases j with
    | zero => rfl
    | succ j => exact absurd h (hne j)
  | succ i =>
    cases j with
    | zero => exact absurd h.symm (hne i)
    | succ j =>
      rw [slot, slot, rotatedPath, rotatedPath, String.append_right_inj] at h
      exact toString_injective h

theorem journalPath_slot_ne (path : String) (i j : Nat) :
    journalPath (slot path i) ≠ slot path j := by
  intro h
  have hlist := congrArg String.toList h
  have hdigits : ∀ n c, c ∈ (toString n).toList → c.isDigit = true :=
    fun n c hc => isDigit_of_mem_toString hc
  cases i with
  | zero =>
    cases j with
    | zero =>
      have hlength := congrArg List.length hlist
      simp [journalPath, slot] at hlength
    | succ j =>
      simp only [journalPath, slot, rotatedPath, String.toList_append, List.append_assoc,
        List.append_cancel_left_eq] at hlist
      have hmem : 't' ∈ (toString (j + 1)).toList := by
        have htail : ['t', 's'] = (toString (j + 1)).toList := by simpa using hlist
        rw [← htail]
        exact List.mem_cons_self
      exact absurd (hdigits _ _ hmem) (by decide)
  | succ i =>
    cases j with
    | zero =>
      have hlength := congrArg List.length hlist
      simp only [journalPath, slot, rotatedPath, String.toList_append, List.length_append]
        at hlength
      have hdot : ".".toList.length = 1 := rfl
      omega
    | succ j =>
      simp only [journalPath, slot, rotatedPath, String.toList_append, List.append_assoc,
        List.append_cancel_left_eq] at hlist
      have hmem : '.' ∈ (toString (j + 1)).toList := by
        rw [← hlist]
        simp
      exact absurd (hdigits _ _ hmem) (by decide)

/-! ## Moving every file one slot up -/

section Shift
variable {α : Type} (f : Nat → Option α)

def raised (i : Nat) : Nat → Option α :=
  Function.update (Function.update f (i + 1) ((f i).or (f (i + 1)))) i none

theorem foldl_raised {k : Nat} (hfree : f k = none) :
    (List.range k).reverse.foldl raised f
      = fun j => if j = 0 then none else if j ≤ k then f (j - 1) else f j := by
  induction k generalizing f with
  | zero =>
    funext j
    by_cases hj : j = 0
    · rw [if_pos hj, hj]
      exact hfree
    · rw [if_neg hj, if_neg (by omega)]
      rfl
  | succ k ih =>
    rw [List.range_succ, List.reverse_append, List.reverse_singleton, List.singleton_append,
      List.foldl_cons, ih (raised f k) (Function.update_self ..)]
    funext j
    by_cases hj : j = 0
    · rw [if_pos hj, if_pos hj]
    rw [if_neg hj, if_neg hj]
    by_cases hle : j ≤ k
    · rw [if_pos hle, if_pos (by omega), raised, Function.update_of_ne (by omega),
        Function.update_of_ne (by omega)]
    · rw [if_neg hle, raised, Function.update_of_ne (by omega)]
      by_cases hk : j = k + 1
      · rw [if_pos (by omega), hk, Function.update_self, hfree, Option.or_none,
          Nat.add_sub_cancel]
      · rw [if_neg (by omega), Function.update_of_ne hk]

end Shift

/-! ## What the operations do to the slots -/

namespace Directory
variable (d : Directory) (path : String) (i : Nat)

def logs : Nat → Option Bytes := d ∘ slot path

def journals : Nat → Option Bytes := d ∘ journalPath ∘ slot path

variable {d path i}

theorem logs_update {v : Option Bytes} :
    logs (Function.update d (slot path i) v) path = Function.update (d.logs path) i v :=
  Function.update_comp_eq_of_injective d (slot_injective path) i v

theorem logs_update_journal {v : Option Bytes} :
    logs (Function.update d (journalPath (slot path i)) v) path = d.logs path :=
  Function.update_comp_eq_of_forall_ne d v fun j => (journalPath_slot_ne path i j).symm

theorem journals_update {v : Option Bytes} :
    journals (Function.update d (slot path i) v) path = d.journals path :=
  Function.update_comp_eq_of_forall_ne d v fun j => journalPath_slot_ne path j i

theorem journals_update_journal {v : Option Bytes} :
    journals (Function.update d (journalPath (slot path i)) v) path
      = Function.update (d.journals path) i v :=
  Function.update_comp_eq_of_injective d (journalPath_injective.comp (slot_injective path)) i v

theorem renameIfExists_eq (source target : String) :
    d.renameIfExists source target
      = Function.update (Function.update d target ((d source).or (d target))) source none := by
  rw [renameIfExists, rename]
  cases hsource : d source with
  | some bytes => rfl
  | none =>
    rw [if_neg (by simp), Option.none_or, Function.update_eq_self, ← hsource,
      Function.update_eq_self]

theorem logs_renamePair :
    (d.renamePair (slot path i) (slot path (i + 1))).logs path = raised (d.logs path) i := by
  rw [renamePair, renameIfExists_eq, logs_update_journal, logs_update_journal, renameIfExists_eq,
    logs_update, logs_update]
  rfl

theorem journals_renamePair :
    (d.renamePair (slot path i) (slot path (i + 1))).journals path = raised (d.journals path) i := by
  rw [renamePair, renameIfExists_eq, journals_update_journal, journals_update_journal,
    renameIfExists_eq, journals_update, journals_update, Function.update_of_ne,
    Function.update_of_ne, Function.update_of_ne, Function.update_of_ne]
  · rfl
  · exact journalPath_slot_ne path _ _
  · exact journalPath_slot_ne path _ _
  · exact journalPath_slot_ne path _ _
  · exact journalPath_slot_ne path _ _

theorem logs_removePair :
    (d.removePair (slot path i)).logs path = Function.update (d.logs path) i none := by
  rw [removePair, removeFile, logs_update_journal, removeFile, logs_update]

theorem journals_removePair :
    (d.removePair (slot path i)).journals path = Function.update (d.journals path) i none := by
  rw [removePair, removeFile, journals_update_journal, removeFile, journals_update]

variable {maxFiles : Nat}

theorem rotatePair_eq (h : 2 ≤ maxFiles) :
    d.rotatePair path maxFiles = (List.range (maxFiles - 1)).reverse.foldl
      (fun d i => d.renamePair (slot path i) (slot path (i + 1)))
      (d.removePair (slot path (maxFiles - 1))) := by
  obtain ⟨oldest, rfl⟩ : ∃ oldest, maxFiles = oldest + 2 := ⟨maxFiles - 2, by omega⟩
  rw [rotatePair, if_neg (by omega), show oldest + 2 - 1 = oldest + 1 from rfl,
    List.range_eq_range', List.range'_succ, List.reverse_cons, List.foldl_append]
  have hloop : ∀ l : List Nat, (∀ i ∈ l, 1 ≤ i) → ∀ d : Directory,
      l.foldl (fun d index => d.renamePair (rotatedPath path index)
          (rotatedPath path (index + 1))) d
        = l.foldl (fun d i => d.renamePair (slot path i) (slot path (i + 1))) d := by
    intro l hl
    induction l with
    | nil => exact fun _ => rfl
    | cons i l ih =>
      intro d
      obtain ⟨j, rfl⟩ : ∃ j, i = j + 1 :=
        ⟨i - 1, by have := hl i List.mem_cons_self; omega⟩
      exact ih (fun k hk => hl k (List.mem_cons_of_mem _ hk)) _
  dsimp only
  rw [hloop _ fun i hi => (List.mem_range'_1.mp (List.mem_reverse.mp hi)).1]
  rfl

theorem view_rotatePair (view : Directory → Nat → Option Bytes)
    (hrename : ∀ d i, view (renamePair d (slot path i) (slot path (i + 1))) = raised (view d) i)
    (hremove : ∀ d i, view (removePair d (slot path i)) = Function.update (view d) i none)
    (h : 2 ≤ maxFiles) :
    view (d.rotatePair path maxFiles) = fun j =>
      if j = 0 then none else if j ≤ maxFiles - 1 then view d (j - 1) else view d j := by
  have hfold : ∀ (l : List Nat) (d : Directory),
      view (l.foldl (fun d i => d.renamePair (slot path i) (slot path (i + 1))) d)
        = l.foldl raised (view d) := by
    intro l
    induction l with
    | nil => exact fun _ => rfl
    | cons i l ih =>
      intro d
      rw [List.foldl_cons, ih, hrename, List.foldl_cons]
  rw [rotatePair_eq h, hfold, hremove, foldl_raised _ (Function.update_self ..)]
  funext j
  by_cases hj : j = 0
  · rw [if_pos hj, if_pos hj]
  rw [if_neg hj, if_neg hj]
  split
  · rw [Function.update_of_ne (by omega)]
  · rw [Function.update_of_ne (by omega)]

theorem logs_rotatePair (h : 2 ≤ maxFiles) :
    (d.rotatePair path maxFiles).logs path = fun j =>
      if j = 0 then none else if j ≤ maxFiles - 1 then d.logs path (j - 1) else d.logs path j :=
  view_rotatePair (fun d => d.logs path) (fun _ _ => logs_renamePair)
    (fun _ _ => logs_removePair) h

theorem journals_rotatePair (h : 2 ≤ maxFiles) :
    (d.rotatePair path maxFiles).journals path = fun j =>
      if j = 0 then none else if j ≤ maxFiles - 1 then d.journals path (j - 1)
      else d.journals path j :=
  view_rotatePair (fun d => d.journals path) (fun _ _ => journals_renamePair)
    (fun _ _ => journals_removePair) h

theorem readRotated_eq :
    d.readRotated path = (List.range 65).reverse.flatMap fun i => (d.logs path i).getD [] := by
  have hrange : (List.range 65).reverse = (List.range' 1 64).reverse ++ [0] := by decide
  have hrotated : (List.range' 1 64).reverse.flatMap (fun i => (d (rotatedPath path i)).getD [])
      = (List.range' 1 64).reverse.flatMap fun i => (d.logs path i).getD [] := by
    refine List.flatMap_congr fun i hi => ?_
    obtain ⟨j, rfl⟩ : ∃ j, i = j + 1 :=
      ⟨i - 1, by have := (List.mem_range'_1.mp (List.mem_reverse.mp hi)).1; omega⟩
    rfl
  rw [readRotated, hrange, List.flatMap_append, hrotated, List.flatMap_singleton]
  rfl

/-! The current pair is opened and written. -/

variable {append : Bool} {bytes : Bytes}

theorem logs_openLogFile : (d.openLogFile path append).logs path
    = Function.update (d.logs path) 0 (some (if append then (d.logs path 0).getD [] else [])) :=
  @logs_update d path 0 _

theorem logs_openLogFile_journal :
    (d.openLogFile (journalPath path) append).logs path = d.logs path :=
  @logs_update_journal d path 0 _

theorem journals_openLogFile : (d.openLogFile path append).journals path = d.journals path :=
  @journals_update d path 0 _

theorem journals_openLogFile_journal : (d.openLogFile (journalPath path) append).journals path
    = Function.update (d.journals path) 0
      (some (if append then (d.journals path 0).getD [] else [])) :=
  @journals_update_journal d path 0 _

theorem logs_writeAll : (d.writeAll path bytes).logs path
    = Function.update (d.logs path) 0 ((d.logs path 0).map (· ++ bytes)) :=
  @logs_update d path 0 _

theorem logs_writeAll_journal : (d.writeAll (journalPath path) bytes).logs path = d.logs path :=
  @logs_update_journal d path 0 _

theorem journals_writeAll : (d.writeAll path bytes).journals path = d.journals path :=
  @journals_update d path 0 _

theorem journals_writeAll_journal : (d.writeAll (journalPath path) bytes).journals path
    = Function.update (d.journals path) 0 ((d.journals path 0).map (· ++ bytes)) :=
  @journals_update_journal d path 0 _

end Directory
end Ferrocrate.Log
