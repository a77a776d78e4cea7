import Ferrocrate.Lib.Paths
import Mathlib.Data.Set.Basic
import Mathlib.Logic.Function.Basic

/-! File systems of inodes: a directory names inodes, a file may have several names, and a symbolic
link holds a path. A change that stays in a set of inodes closed under naming leaves the others
as they are. -/
namespace Ferrocrate.Lib

abbrev Inode := Nat

inductive FsNode where
  | directory (parent : Inode) (entries : Name → Option Inode)
  | file (bytes : Bytes)
  | symlink (target : Bytes)

structure FileSystem where
  node : Inode → Option FsNode
  root : Inode
  next : Inode
  fresh : ∀ i, next ≤ i → node i = none

/-- Where a path ends: at a name of a directory, whether or not there is anything, or at a
directory itself. -/
inductive Resolved where
  | named (directory : Inode) (name : Name) (inode : Option Inode)
  | self (directory : Inode)
  | failed

def Resolved.inode : Resolved → Option Inode
  | .named _ _ i => i
  | .self d => some d
  | .failed => none

namespace FileSystem
variable (fs : FileSystem)

def entry (d : Inode) (name : Name) : Option Inode :=
  match fs.node d with
  | some (.directory _ entries) => entries name
  | _ => none

def isDirectory (i : Inode) : Bool :=
  match fs.node i with
  | some (.directory ..) => true
  | _ => false

def isSymlink (i : Inode) : Bool :=
  match fs.node i with
  | some (.symlink _) => true
  | _ => false

def fileBytes (i : Inode) : Option Bytes :=
  match fs.node i with
  | some (.file bytes) => some bytes
  | _ => none

/-! ## Resolving paths -/

def walk (follow : Inode → List Component → Resolved) (followLast : Bool) :
    Inode → List Component → Resolved
  | d, [] => .self d
  | _, .rootDir :: cs => walk follow followLast fs.root cs
  | d, .curDir :: cs => walk follow followLast d cs
  | d, .parentDir :: cs =>
    match fs.node d with
    | some (.directory parent _) => walk follow followLast parent cs
    | _ => .failed
  | d, .normal name :: cs =>
    match fs.entry d name with
    | none => if cs = [] ∧ fs.isDirectory d then .named d name none else .failed
    | some i =>
      match fs.node i with
      | some (.symlink target) =>
        if cs = [] ∧ followLast = false then .named d name (some i)
        else follow d (Path.components target ++ cs)
      | some (.directory ..) =>
        if cs = [] then .named d name (some i) else walk follow followLast i cs
      | _ => if cs = [] then .named d name (some i) else .failed

def resolve (followLast : Bool) : Nat → Inode → List Component → Resolved
  | 0, _, _ => .failed
  | links + 1, d, cs => fs.walk (resolve followLast links) followLast d cs

def maxLinks : Nat := 41

def lstat (d : Inode) (path : Path) : Resolved :=
  fs.resolve false maxLinks d (path.map .normal)

def stat (d : Inode) (path : Path) : Resolved :=
  fs.resolve true maxLinks d (path.map .normal)

/-! ## Changes -/

def setEntry (d : Inode) (name : Name) (i : Option Inode) : FileSystem :=
  match hd : fs.node d with
  | some (.directory parent entries) =>
    { fs with
      node := Function.update fs.node d
        (some (.directory parent (Function.update entries name i)))
      fresh := by
        intro j hj
        have hne : j ≠ d := by
          rintro rfl
          rw [fs.fresh j hj] at hd
          cases hd
        rw [Function.update_of_ne hne]
        exact fs.fresh j hj }
  | _ => fs

def allocate (content : FsNode) : FileSystem :=
  { fs with
    node := Function.update fs.node fs.next (some content)
    next := fs.next + 1
    fresh := by
      intro j hj
      rw [Function.update_of_ne (Nat.ne_of_gt hj)]
      exact fs.fresh j (Nat.le_of_succ_le hj) }

def add (d : Inode) (name : Name) (content : FsNode) : FileSystem :=
  (fs.allocate content).setEntry d name (some fs.next)

def truncateAndWrite (i : Inode) (bytes : Bytes) : FileSystem :=
  if hi : i < fs.next then
    { fs with
      node := Function.update fs.node i (some (.file bytes))
      fresh := by
        intro j hj
        rw [Function.update_of_ne (Nat.ne_of_gt (Nat.lt_of_lt_of_le hi hj))]
        exact fs.fresh j hj }
  else fs

def unlink (r : Resolved) : FileSystem :=
  match r with
  | .named d name (some _) => fs.setEntry d name none
  | _ => fs

def hardLink (source target : Resolved) : Option FileSystem :=
  match source.inode, target with
  | some i, .named d name none =>
    if fs.isDirectory i then none else some (fs.setEntry d name (some i))
  | _, _ => none

def copy (source target : Resolved) : Option FileSystem :=
  match source.inode.bind fun i => (fs.fileBytes i).map (i, ·) with
  | none => none
  | some (i, bytes) =>
    match target with
    | .named d name none => some (fs.add d name (.file bytes))
    | .named _ _ (some j) =>
      if (fs.fileBytes j).isSome then some (fs.truncateAndWrite j (if i = j then [] else bytes))
      else none
    | _ => none

/-! ## Changes that stay in a closed set -/

structure Sealed (S : Set Inode) (fs₀ fs : FileSystem) : Prop where
  same : ∀ i, i ∉ S → fs.node i = fs₀.node i
  closed : ∀ d ∈ S, ∀ name i, fs.entry d name = some i → i ∈ S
  outside : ∀ i, i ∉ S → fs₀.node i ≠ none

section Sealed
variable {S : Set Inode} {fs₀ fs : FileSystem} {d i : Inode} {name : Name}

theorem Sealed.next_mem (h : Sealed S fs₀ fs) : fs.next ∈ S := by
  by_contra hnext
  exact h.outside _ hnext ((h.same _ hnext).symm.trans (fs.fresh _ (Nat.le_refl _)))

variable {v : Option Inode}

theorem entry_setEntry {d' : Inode} {name' : Name} {j : Inode}
    (h : (fs.setEntry d name v).entry d' name' = some j) :
    (d' = d ∧ name' = name ∧ v = some j) ∨ fs.entry d' name' = some j := by
  unfold setEntry at h
  split at h
  next parent entries hd =>
    by_cases hd' : d' = d
    · subst hd'
      simp only [entry, Function.update_self] at h
      by_cases hname : name' = name
      · subst hname
        rw [Function.update_self] at h
        exact .inl ⟨rfl, rfl, h⟩
      · rw [Function.update_of_ne hname] at h
        refine .inr ?_
        rw [entry, hd]
        exact h
    · refine .inr ?_
      simp only [entry, Function.update_of_ne hd'] at h
      exact h
  next => exact .inr h

theorem node_setEntry_of_ne (h : i ≠ d) :
    (fs.setEntry d name v).node i = fs.node i := by
  unfold setEntry
  split
  · exact Function.update_of_ne h ..
  · rfl

theorem Sealed.setEntry (h : Sealed S fs₀ fs) (hd : d ∈ S)
    (hv : ∀ i, v = some i → i ∈ S) : Sealed S fs₀ (fs.setEntry d name v) where
  same i hi := by
    have hne : i ≠ d := fun heq => hi (heq ▸ hd)
    exact (node_setEntry_of_ne hne).trans (h.same i hi)
  closed d' hd' name' j hj := by
    obtain ⟨-, -, hvj⟩ | hold := entry_setEntry hj
    · exact hv j hvj
    · exact h.closed d' hd' name' j hold
  outside := h.outside

def ContentIn (S : Set Inode) : FsNode → Prop
  | .directory _ entries => ∀ name i, entries name = some i → i ∈ S
  | _ => True

theorem Sealed.allocate {content : FsNode} (h : Sealed S fs₀ fs) (hcontent : ContentIn S content) :
    Sealed S fs₀ (fs.allocate content) where
  same i hi := by
    have hne : i ≠ fs.next := fun heq => hi (heq ▸ h.next_mem)
    exact (Function.update_of_ne hne ..).trans (h.same i hi)
  closed d hd name i hi := by
    by_cases hnext : d = fs.next
    · subst hnext
      simp only [entry, FileSystem.allocate, Function.update_self] at hi
      cases content with
      | directory parent entries => exact hcontent name i hi
      | file bytes => cases hi
      | symlink target => cases hi
    · simp only [entry, FileSystem.allocate, Function.update_of_ne hnext] at hi
      exact h.closed d hd name i hi
  outside := h.outside

theorem Sealed.add {content : FsNode} (h : Sealed S fs₀ fs) (hd : d ∈ S)
    (hcontent : ContentIn S content) : Sealed S fs₀ (fs.add d name content) :=
  (h.allocate hcontent).setEntry hd fun _ hi => Option.some.inj hi ▸ h.next_mem

theorem Sealed.truncateAndWrite {bytes : Bytes} (h : Sealed S fs₀ fs) (hi : i ∈ S) :
    Sealed S fs₀ (fs.truncateAndWrite i bytes) := by
  unfold FileSystem.truncateAndWrite
  split
  · exact {
      same := fun j hj => by
        have hne : j ≠ i := fun heq => hj (heq ▸ hi)
        exact (Function.update_of_ne hne ..).trans (h.same j hj)
      closed := fun d hd name j hj => by
        by_cases hdi : d = i
        · subst hdi
          simp only [entry, Function.update_self] at hj
          cases hj
        · simp only [entry, Function.update_of_ne hdi] at hj
          exact h.closed d hd name j hj
      outside := h.outside }
  · exact h

def Resolved.In (S : Set Inode) : Resolved → Prop
  | .named d _ i => d ∈ S ∧ ∀ j, i = some j → j ∈ S
  | .self d => d ∈ S
  | .failed => True

theorem Sealed.unlink {r : Resolved} (h : Sealed S fs₀ fs) (hr : Resolved.In S r) :
    Sealed S fs₀ (fs.unlink r) := by
  unfold FileSystem.unlink
  split
  · exact h.setEntry hr.1 fun _ hi => nomatch hi
  · exact h

theorem Resolved.In.inode {r : Resolved} (h : Resolved.In S r) (hi : r.inode = some i) : i ∈ S := by
  cases r with
  | named d name j => exact h.2 i hi
  | self d => exact Option.some.inj hi ▸ h
  | failed => cases hi

variable {source target : Resolved} {fs' : FileSystem}

theorem Sealed.hardLink (h : Sealed S fs₀ fs)
    (hsource : Resolved.In S source) (htarget : Resolved.In S target)
    (hlink : fs.hardLink source target = some fs') : Sealed S fs₀ fs' := by
  unfold FileSystem.hardLink at hlink
  split at hlink
  next i d name hi =>
    split at hlink
    · cases hlink
    · cases hlink
      exact h.setEntry htarget.1 fun j hj => Option.some.inj hj ▸ hsource.inode hi
  next => cases hlink

theorem hardLink_taken {source : Resolved} :
    fs.hardLink source (.named d name (some i)) = none := by
  unfold FileSystem.hardLink
  cases source.inode <;> rfl

theorem copy_free {source : Resolved} (h : (source.inode.bind fs.fileBytes).isSome = true) :
    ∃ bytes, fs.copy source (.named d name none) = some (fs.add d name (.file bytes)) := by
  obtain ⟨bytes, hbytes⟩ := Option.isSome_iff_exists.mp h
  obtain ⟨j, hj, hcontent⟩ := Option.bind_eq_some_iff.mp hbytes
  refine ⟨bytes, ?_⟩
  rw [FileSystem.copy, hj, Option.bind_some, hcontent]
  rfl

theorem copy_source
    (hcopy : fs.copy source target = some fs') : (source.inode.bind fs.fileBytes).isSome = true := by
  unfold FileSystem.copy at hcopy
  split at hcopy
  · cases hcopy
  next i bytes heq =>
    obtain ⟨j, hj, hbytes⟩ := Option.bind_eq_some_iff.mp heq
    obtain ⟨content, hcontent, -⟩ := Option.map_eq_some_iff.mp hbytes
    rw [hj, Option.bind_some, hcontent]
    rfl

theorem Sealed.copy (h : Sealed S fs₀ fs)
    (htarget : Resolved.In S target) (hcopy : fs.copy source target = some fs') :
    Sealed S fs₀ fs' := by
  unfold FileSystem.copy at hcopy
  split at hcopy
  · cases hcopy
  · split at hcopy
    · cases hcopy
      exact h.add htarget.1 trivial
    · split at hcopy
      · cases hcopy
        exact h.truncateAndWrite (htarget.2 _ rfl)
      · cases hcopy
    · cases hcopy

end Sealed

/-! ## What is outside -/

inductive Reaches (fs : FileSystem) (top : Inode) : Inode → Prop
  | refl : Reaches fs top top
  | entry {d i : Inode} {name : Name} (hd : Reaches fs top d) (hi : fs.entry d name = some i) :
    Reaches fs top i

def outside (fs : FileSystem) (top : Inode) : Set Inode :=
  {i | fs.node i ≠ none ∧ ¬ fs.Reaches top i}

theorem node_ne_none_of_entry {fs : FileSystem} {d i : Inode} {name : Name}
    (h : fs.entry d name = some i) : fs.node d ≠ none := by
  intro hnone
  rw [entry, hnone] at h
  cases h

theorem top_mem_compl_outside (fs : FileSystem) (top : Inode) : top ∈ (fs.outside top)ᶜ :=
  fun h => h.2 .refl

theorem sealed_compl_outside (fs : FileSystem) (top : Inode) :
    Sealed (fs.outside top)ᶜ fs fs where
  same _ _ := rfl
  closed d hd name i hi := by
    intro hout
    have hreaches : fs.Reaches top d := by
      by_contra hnot
      exact hd ⟨node_ne_none_of_entry hi, hnot⟩
    exact hout.2 (hreaches.entry hi)
  outside i hi := (Set.notMem_compl_iff.mp hi).1

section Outside
variable {S : Set Inode} {fs₀ fs : FileSystem} {d i : Inode} {name : Name}

theorem Sealed.self (h : Sealed S fs₀ fs) : Sealed S fs fs where
  same _ _ := rfl
  closed := h.closed
  outside i hi := (h.same i hi) ▸ h.outside i hi

theorem Sealed.entry_eq (h : Sealed S fs₀ fs) (hd : d ∉ S) (name : Name) :
    fs.entry d name = fs₀.entry d name := by
  rw [entry, entry, h.same d hd]

theorem Sealed.add_outside {bytes : Bytes} (h : Sealed S fs₀ fs) (hd : d ∉ S) :
    Sealed S (fs.add d name (.file bytes)) (fs.add d name (.file bytes)) where
  same _ _ := rfl
  closed e he name' j hj := by
    obtain ⟨rfl, -⟩ | hold := entry_setEntry hj
    · exact absurd he hd
    · have halloc : Sealed S fs₀ (fs.allocate (.file bytes)) := h.allocate trivial
      exact halloc.closed e he name' j hold
  outside j hj := by
    have halloc : Sealed S fs₀ (fs.allocate (.file bytes)) := h.allocate trivial
    have hnode : (fs.allocate (.file bytes)).node j ≠ none := by
      rw [halloc.same j hj]
      exact h.outside j hj
    rw [FileSystem.add]
    unfold FileSystem.setEntry
    split
    · by_cases hjd : j = d
      · rw [hjd]
        simp
      · dsimp only
        rw [Function.update_of_ne hjd]
        exact hnode
    · exact hnode

end Outside

/-! ## Free names -/

section Free
variable {fs : FileSystem} {followLast : Bool}

theorem walk_free {follow : Inode → List Component → Resolved}
    (hfollow : ∀ d cs e name, follow d cs = .named e name none →
      fs.isDirectory e = true ∧ fs.entry e name = none)
    {d e : Inode} {cs : List Component} {name : Name}
    (h : fs.walk follow followLast d cs = .named e name none) :
    fs.isDirectory e = true ∧ fs.entry e name = none := by
  induction cs generalizing d with
  | nil => cases h
  | cons c cs ih =>
    cases c with
    | rootDir => exact ih h
    | curDir => exact ih h
    | parentDir =>
      rw [walk] at h
      split at h
      · exact ih h
      · cases h
    | normal name' =>
      rw [walk] at h
      split at h
      next hnone =>
        split at h
        next hand =>
          cases h
          exact ⟨hand.2, hnone⟩
        next => cases h
      next i hentry =>
        split at h
        · split at h
          · cases h
          · exact hfollow _ _ _ _ h
        · split at h
          · cases h
          · exact ih h
        · split at h
          · cases h
          · cases h

theorem resolve_free {links : Nat} {d e : Inode} {cs : List Component} {name : Name}
    (h : fs.resolve followLast links d cs = .named e name none) :
    fs.isDirectory e = true ∧ fs.entry e name = none := by
  induction links generalizing d cs e name with
  | zero => cases h
  | succ links ih => exact walk_free (fun _ _ _ _ => ih) h

end Free

end FileSystem
end Ferrocrate.Lib
