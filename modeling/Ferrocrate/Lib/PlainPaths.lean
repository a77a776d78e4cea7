import Ferrocrate.Lib.FileSystem

/-! Paths on which nothing is a symbolic link: where they lead, and that they stay so while
names are removed and directories are made. -/
namespace Ferrocrate.Lib
namespace FileSystem
variable (fs : FileSystem)

def descend : Inode → Path → Option Inode
  | d, [] => some d
  | d, name :: path =>
    (fs.entry d name).bind fun i => if fs.isDirectory i then descend i path else none

def NoLinks : Inode → Path → Prop
  | _, [] => True
  | d, name :: path =>
    ∀ i, fs.entry d name = some i → fs.isSymlink i = false ∧ NoLinks i path

section Plain
variable {fs : FileSystem} {S : Set Inode} {fs₀ : FileSystem}
variable {follow : Inode → List Component → Resolved} {followLast : Bool} {d : Inode}

theorem entry_of_not_isDirectory (h : fs.isDirectory d = false) (name : Name) :
    fs.entry d name = none := by
  unfold isDirectory at h
  unfold entry
  split
  next heq =>
    rw [heq] at h
    cases h
  · rfl

variable {path : Path}

theorem walk_of_noLinks {cs : List Component}
    (h : fs.NoLinks d path) (hcs : cs ≠ []) :
    fs.walk follow followLast d (path.map .normal ++ cs)
      = match fs.descend d path with
        | some d' => fs.walk follow followLast d' cs
        | none => .failed := by
  induction path generalizing d with
  | nil => rfl
  | cons name path ih =>
    have hrest : path.map Component.normal ++ cs ≠ [] := List.append_ne_nil_of_right_ne_nil _ hcs
    rw [List.map_cons, List.cons_append, walk, descend]
    cases hentry : fs.entry d name with
    | none =>
      dsimp only [Option.bind_none]
      rw [if_neg fun hand => hrest hand.1]
    | some i =>
      obtain ⟨hlink, hpath⟩ := h i hentry
      dsimp only [Option.bind_some]
      unfold isSymlink at hlink
      cases hnode : fs.node i with
      | none =>
        dsimp only
        rw [if_neg hrest, isDirectory, hnode]
        rfl
      | some content =>
        rw [hnode] at hlink
        cases content with
        | directory parent entries =>
          dsimp only
          have hdir : fs.isDirectory i = true := by rw [isDirectory, hnode]
          rw [if_neg hrest, if_pos hdir, ih hpath]
        | file bytes =>
          dsimp only
          have hdir : fs.isDirectory i = false := by rw [isDirectory, hnode]
          rw [if_neg hrest, hdir]
          rfl
        | symlink target => cases hlink

variable {name : Name}

theorem lstat_of_noLinks (h : fs.NoLinks d path) :
    fs.lstat d (path ++ [name])
      = match fs.descend d path with
        | some d' => match fs.entry d' name with
          | some i => .named d' name (some i)
          | none => if fs.isDirectory d' then .named d' name none else .failed
        | none => .failed := by
  rw [lstat, maxLinks, resolve, List.map_append, List.map_singleton,
    walk_of_noLinks h (List.cons_ne_nil _ _)]
  cases fs.descend d path with
  | none => rfl
  | some d' =>
    dsimp only
    rw [walk]
    cases hentry : fs.entry d' name with
    | none =>
      dsimp only
      by_cases hdir : fs.isDirectory d' = true
      · rw [if_pos ⟨rfl, hdir⟩, if_pos hdir]
      · rw [if_neg fun hand => hdir hand.2, if_neg hdir]
    | some i =>
      dsimp only
      cases fs.node i with
      | none => rfl
      | some content => cases content <;> rfl

theorem stat_of_noLinks (h : fs.NoLinks d path)
    (hlast : ∀ i, (fs.lstat d (path ++ [name])).inode = some i → fs.isSymlink i = false) :
    fs.stat d (path ++ [name]) = fs.lstat d (path ++ [name]) := by
  have hlstat : fs.lstat d (path ++ [name]) = _ := lstat_of_noLinks h
  rw [stat, maxLinks, resolve, List.map_append, List.map_singleton,
    walk_of_noLinks h (List.cons_ne_nil _ _)]
  cases hd : fs.descend d path with
  | none =>
    rw [hd] at hlstat
    exact hlstat.symm
  | some d' =>
    rw [hd] at hlstat
    dsimp only at hlstat ⊢
    rw [walk]
    cases hentry : fs.entry d' name with
    | none =>
      rw [hentry] at hlstat
      dsimp only at hlstat ⊢
      rw [hlstat]
      by_cases hdir : fs.isDirectory d' = true
      · rw [if_pos ⟨rfl, hdir⟩, if_pos hdir]
      · rw [if_neg fun hand => hdir hand.2, if_neg hdir]
    | some i =>
      rw [hentry] at hlstat
      dsimp only at hlstat ⊢
      rw [hlstat] at hlast ⊢
      have hlink := hlast i rfl
      unfold isSymlink at hlink
      cases hnode : fs.node i with
      | none => rfl
      | some content =>
        rw [hnode] at hlink
        cases content with
        | directory parent entries => rfl
        | file bytes => rfl
        | symlink target => cases hlink

variable {d d' : Inode}

theorem Sealed.descend_mem (h : Sealed S fs₀ fs) (hd : d ∈ S)
    (hpath : fs.descend d path = some d') : d' ∈ S := by
  induction path generalizing d with
  | nil => exact Option.some.inj hpath ▸ hd
  | cons name path ih =>
    obtain ⟨i, hentry, hi⟩ := Option.bind_eq_some_iff.mp hpath
    split at hi
    · exact ih (h.closed d hd name i hentry) hi
    · cases hi

theorem Sealed.lstat_in (h : Sealed S fs₀ fs)
    (hd : d ∈ S) (hpath : fs.NoLinks d path) :
    Resolved.In S (fs.lstat d (path ++ [name])) := by
  rw [lstat_of_noLinks hpath]
  cases hd' : fs.descend d path with
  | none => trivial
  | some d' =>
    have hmem := h.descend_mem hd hd'
    dsimp only
    cases hentry : fs.entry d' name with
    | some i => exact ⟨hmem, fun j hj => Option.some.inj hj ▸ h.closed d' hmem name i hentry⟩
    | none =>
      dsimp only
      split
      · exact ⟨hmem, fun j hj => nomatch hj⟩
      · trivial

variable {path rest : Path}

theorem noLinks_append (h : fs.NoLinks d path)
    (hrest : ∀ d', fs.descend d path = some d' → fs.NoLinks d' rest) :
    fs.NoLinks d (path ++ rest) := by
  induction path generalizing d with
  | nil => exact hrest d rfl
  | cons name path ih =>
    intro i hentry
    obtain ⟨hlink, hpath⟩ := h i hentry
    refine ⟨hlink, ?_⟩
    by_cases hdir : fs.isDirectory i = true
    · refine ih hpath fun d' hd' => hrest d' ?_
      rw [descend, hentry, Option.bind_some, if_pos hdir, hd']
    · have hnone := entry_of_not_isDirectory (Bool.eq_false_iff.mpr hdir)
      cases path with
      | nil =>
        cases rest with
        | nil => trivial
        | cons name' rest =>
          intro j hj
          rw [hnone] at hj
          cases hj
      | cons name' path =>
        intro j hj
        rw [hnone] at hj
        cases hj

theorem noLinks_of_append (h : fs.NoLinks d (path ++ rest)) :
    fs.NoLinks d path := by
  induction path generalizing d with
  | nil => trivial
  | cons name path ih =>
    intro i hentry
    obtain ⟨hlink, hpath⟩ := h i hentry
    exact ⟨hlink, ih hpath⟩

theorem NoLinks.dropLast (h : fs.NoLinks d path) :
    fs.NoLinks d path.dropLast := by
  cases path using List.reverseRecOn with
  | nil => trivial
  | append_singleton path name =>
    rw [List.dropLast_concat]
    exact noLinks_of_append h

theorem lstat_cases (name : Name) (h : fs.NoLinks d path) :
    (∃ d', fs.descend d path = some d' ∧ fs.isDirectory d' = true ∧
      fs.lstat d (path ++ [name]) = .named d' name (fs.entry d' name)) ∨
    fs.lstat d (path ++ [name]) = .failed := by
  rw [lstat_of_noLinks h]
  cases hd' : fs.descend d path with
  | none => exact .inr rfl
  | some d' =>
    dsimp only
    by_cases hdir : fs.isDirectory d' = true
    · refine .inl ⟨d', rfl, hdir, ?_⟩
      cases hentry : fs.entry d' name with
      | none => exact if_pos hdir
      | some i => rfl
    · rw [entry_of_not_isDirectory (Bool.eq_false_iff.mpr hdir)]
      exact .inr (if_neg hdir)

theorem isDirectory_of_descend (h : fs.descend d path = some d')
    (hd' : fs.isDirectory d' = true) : fs.isDirectory d = true := by
  cases path with
  | nil => exact (Option.some.inj h).symm ▸ hd'
  | cons name path =>
    obtain ⟨i, hentry, -⟩ := Option.bind_eq_some_iff.mp h
    by_contra hdir
    rw [entry_of_not_isDirectory (Bool.eq_false_iff.mpr hdir)] at hentry
    cases hentry

theorem lstat_free {d e : Inode} {name name' : Name} (h : fs.NoLinks d path)
    (hlstat : fs.lstat d (path ++ [name]) = .named e name' none) :
    name' = name ∧ fs.descend d path = some e ∧ fs.isDirectory e = true ∧
      fs.entry e name = none := by
  obtain ⟨d', hd', hdir, hnamed⟩ | hfailed := lstat_cases name h
  · obtain ⟨rfl, rfl, hfree⟩ := Resolved.named.inj (hnamed.symm.trans hlstat)
    exact ⟨rfl, hd', hdir, hfree⟩
  · cases hfailed.symm.trans hlstat

theorem noLinks_of_prefixes
    (h : ∀ q, q <+: path → q ≠ [] → (fs.lstat d q).inode.any fs.isSymlink = false) :
    fs.NoLinks d path := by
  induction path using List.reverseRecOn with
  | nil => trivial
  | append_singleton path name ih =>
    have hpath := ih fun q hq => h q (hq.trans (List.prefix_append _ _))
    refine noLinks_append hpath fun d' hd' i hentry => ⟨?_, trivial⟩
    have hlast := h (path ++ [name]) (List.prefix_refl _) (by simp)
    rw [lstat_of_noLinks hpath, hd'] at hlast
    dsimp only at hlast
    rw [hentry] at hlast
    exact hlast

/-! ### Plain paths while the tree changes -/

theorem isSymlink_setEntry {d i : Inode} {v : Option Inode} :
    (fs.setEntry d name v).isSymlink i = fs.isSymlink i := by
  by_cases hi : i = d
  · subst hi
    unfold setEntry
    split
    next hd => simp [isSymlink, hd]
    next => rfl
  · rw [isSymlink, isSymlink, node_setEntry_of_ne hi]

theorem isDirectory_setEntry {d i : Inode} {v : Option Inode} :
    (fs.setEntry d name v).isDirectory i = fs.isDirectory i := by
  by_cases hi : i = d
  · subst hi
    unfold setEntry
    split
    next hd => simp [isDirectory, hd]
    next => rfl
  · rw [isDirectory, isDirectory, node_setEntry_of_ne hi]

theorem NoLinks.unlink {r : Resolved} (h : fs.NoLinks d path) :
    (fs.unlink r).NoLinks d path := by
  unfold FileSystem.unlink
  split
  next e name' j =>
    induction path generalizing d with
    | nil => trivial
    | cons name path ih =>
      intro i hentry
      obtain ⟨-, -, hnone⟩ | hold := entry_setEntry hentry
      · cases hnone
      · obtain ⟨hlink, hpath⟩ := h i hold
        exact ⟨isSymlink_setEntry.trans hlink, ih hpath⟩
  next => exact h

theorem entry_unlink_self {d i : Inode} :
    (fs.unlink (.named d name (some i))).entry d name = none := by
  change (fs.setEntry d name none).entry d name = none
  cases hentry : (fs.setEntry d name none).entry d name with
  | none => rfl
  | some j =>
    unfold setEntry at hentry
    split at hentry
    next parent entries hd => simp [entry] at hentry
    next hd =>
      unfold entry at hentry
      split at hentry
      next heq => exact absurd heq (hd _ _)
      next => cases hentry

theorem descend_unlink {d e : Inode} {r : Resolved}
    (h : (fs.unlink r).descend d path = some e) : fs.descend d path = some e := by
  unfold FileSystem.unlink at h
  split at h
  next d' name' j =>
    induction path generalizing d with
    | nil => exact h
    | cons name path ih =>
      obtain ⟨i, hentry, hi⟩ := Option.bind_eq_some_iff.mp h
      obtain ⟨-, -, hnone⟩ | hold := entry_setEntry hentry
      · cases hnone
      · rw [isDirectory_setEntry] at hi
        rw [descend, hold, Option.bind_some]
        split at hi
        next hdir =>
          rw [if_pos hdir]
          exact ih hi
        next => cases hi
  next => exact h

theorem lstat_unlink_lstat (h : fs.NoLinks d path) :
    ((fs.unlink (fs.lstat d (path ++ [name]))).lstat d (path ++ [name])).inode = none := by
  have hplain : (fs.unlink (fs.lstat d (path ++ [name]))).NoLinks d path := h.unlink
  obtain ⟨e, he, -, hnamed'⟩ | hfailed := lstat_cases name hplain
  · rw [hnamed']
    obtain ⟨d', hd', -, hnamed⟩ | hfailed := lstat_cases name h
    · obtain rfl : d' = e := Option.some.inj (hd'.symm.trans (descend_unlink he))
      rw [hnamed]
      cases hentry : fs.entry d' name with
      | none => exact hentry
      | some i => exact entry_unlink_self
    · rw [hfailed]
      rw [hfailed] at hnamed'
      exact congrArg Resolved.inode (hnamed'.symm.trans hfailed)
  · rw [hfailed]
    rfl

section Add
variable {d : Inode} {name : Name} {content : FsNode}

theorem isSymlink_add {i : Inode} (hi : i ≠ fs.next) :
    (fs.add d name content).isSymlink i = fs.isSymlink i := by
  rw [add, isSymlink_setEntry, isSymlink, isSymlink, allocate]
  dsimp only
  rw [Function.update_of_ne hi]

theorem isDirectory_add {i : Inode} (hi : i ≠ fs.next) :
    (fs.add d name content).isDirectory i = fs.isDirectory i := by
  rw [add, isDirectory_setEntry, isDirectory, isDirectory, allocate]
  dsimp only
  rw [Function.update_of_ne hi]

variable {parent : Inode} {entries : Name → Option Inode}

theorem isDirectory_add_next :
    (fs.add d name (.directory parent entries)).isDirectory fs.next = true := by
  rw [add, isDirectory_setEntry, isDirectory, allocate]
  dsimp only
  rw [Function.update_self]

theorem isSymlink_add_next :
    (fs.add d name (.directory parent entries)).isSymlink fs.next = false := by
  rw [add, isSymlink_setEntry, isSymlink, allocate]
  dsimp only
  rw [Function.update_self]

variable (hd : fs.isDirectory d = true)
include hd

theorem ne_next_of_isDirectory : d ≠ fs.next := by
  intro heq
  rw [isDirectory, heq, fs.fresh _ (Nat.le_refl _)] at hd
  cases hd

theorem entry_add {e : Inode} (he : e ≠ fs.next) {name' : Name} :
    (fs.add d name content).entry e name'
      = if e = d ∧ name' = name then some fs.next else fs.entry e name' := by
  have hdn := ne_next_of_isDirectory hd
  unfold isDirectory at hd
  cases hnode : fs.node d with
  | none =>
    rw [hnode] at hd
    cases hd
  | some c =>
    cases c with
    | file bytes =>
      rw [hnode] at hd
      cases hd
    | symlink target =>
      rw [hnode] at hd
      cases hd
    | directory parent entries =>
      have halloc : (fs.allocate content).node d = some (.directory parent entries) := by
        rw [allocate]
        exact (Function.update_of_ne hdn ..).trans hnode
      have hset : (fs.add d name content).node
          = Function.update (fs.allocate content).node d
            (some (.directory parent (Function.update entries name (some fs.next)))) := by
        rw [add, FileSystem.setEntry]
        split
        next parent' entries' heq =>
          rw [halloc] at heq
          cases heq
          rfl
        next hnot => exact absurd halloc (hnot _ _)
      rw [entry, entry, hset]
      by_cases hed : e = d
      · subst hed
        rw [Function.update_self, hnode]
        by_cases hname : name' = name
        · simp [hname]
        · simp [hname]
      · rw [Function.update_of_ne hed, if_neg fun hand => hed hand.1, allocate]
        dsimp only
        rw [Function.update_of_ne he]

theorem entry_add_next {name' : Name} :
    (fs.add d name (.directory parent fun _ => none)).entry fs.next name' = none := by
  have hdn := ne_next_of_isDirectory hd
  cases hentry : (fs.add d name (.directory parent fun _ => none)).entry fs.next name' with
  | none => rfl
  | some j =>
    obtain ⟨heq, -⟩ | hold := entry_setEntry hentry
    · exact absurd heq.symm hdn
    · rw [entry, allocate] at hold
      dsimp only at hold
      rw [Function.update_self] at hold
      cases hold

theorem NoLinks.add {e parent : Inode} {path : Path} (h : fs.NoLinks e path) :
    (fs.add d name (.directory parent fun _ => none)).NoLinks e path := by
  induction path generalizing e with
  | nil => trivial
  | cons name' path ih =>
    intro i hentry
    have hnext : ∀ rest, (fs.add d name (.directory parent fun _ => none)).NoLinks fs.next rest
      | [] => trivial
      | _ :: _ => fun j hj => nomatch (entry_add_next hd).symm.trans hj
    by_cases hi : i = fs.next
    · rw [hi]
      exact ⟨isSymlink_add_next, hnext path⟩
    · by_cases he : e = fs.next
      · rw [he, entry_add_next hd] at hentry
        cases hentry
      · rw [entry_add hd he] at hentry
        split at hentry
        · exact absurd (Option.some.inj hentry).symm hi
        · obtain ⟨hlink, hpath⟩ := h i hentry
          exact ⟨(isSymlink_add hi).trans hlink, ih hpath⟩

theorem descend_add {e e' : Inode} {path : Path} (hfree : fs.entry d name = none)
    (he : fs.isDirectory e = true) (h : fs.descend e path = some e') :
    (fs.add d name content).descend e path = some e' := by
  induction path generalizing e with
  | nil => exact h
  | cons name' path ih =>
    obtain ⟨i, hentry, hi⟩ := Option.bind_eq_some_iff.mp h
    split at hi
    next hdir =>
      have hnot : ¬ (e = d ∧ name' = name) := by
        intro hand
        rw [hand.1, hand.2, hfree] at hentry
        cases hentry
      rw [descend, entry_add hd (ne_next_of_isDirectory he), if_neg hnot, hentry, Option.bind_some,
        isDirectory_add (ne_next_of_isDirectory hdir), if_pos hdir]
      exact ih hdir hi
    next => cases hi

end Add

theorem descend_append (h : fs.descend d path = some d') :
    fs.descend d (path ++ rest) = fs.descend d' rest := by
  induction path generalizing d with
  | nil =>
    cases h
    rfl
  | cons name path ih =>
    obtain ⟨i, hentry, hi⟩ := Option.bind_eq_some_iff.mp h
    split at hi
    next hdir =>
      rw [List.cons_append, descend, hentry, Option.bind_some, if_pos hdir]
      exact ih hi
    next => cases hi

theorem descend_append_singleton
    (h : fs.descend d (path ++ [name]) = some d') :
    ∃ e, fs.descend d path = some e ∧ fs.entry e name = some d' := by
  induction path generalizing d with
  | nil =>
    obtain ⟨i, hentry, hi⟩ := Option.bind_eq_some_iff.mp h
    split at hi
    · exact ⟨d, rfl, hi ▸ hentry⟩
    · cases hi
  | cons name' path ih =>
    obtain ⟨i, hentry, hi⟩ := Option.bind_eq_some_iff.mp h
    split at hi
    next hdir =>
      obtain ⟨e, he, hed⟩ := ih hi
      refine ⟨e, ?_, hed⟩
      rw [descend, hentry, Option.bind_some, if_pos hdir]
      exact he
    next => cases hi

theorem not_isSymlink_of_isDirectory {i : Inode} (h : fs.isDirectory i = true) :
    fs.isSymlink i = false := by
  unfold isDirectory at h
  unfold isSymlink
  split at h
  next hnode => rw [hnode]
  next => cases h

def EmptyAt (fs : FileSystem) (d : Inode) (path : Path) : Prop :=
  ∃ d', fs.descend d path = some d' ∧ fs.isDirectory d' = true ∧ ∀ name, fs.entry d' name = none

theorem EmptyAt.lstat (h : fs.EmptyAt d path) (hpath : fs.NoLinks d path)
    (name : Name) : ∃ d', fs.lstat d (path ++ [name]) = .named d' name none := by
  obtain ⟨d', hd', hdir, hempty⟩ := h
  rw [lstat_of_noLinks hpath, hd']
  dsimp only
  rw [hempty name]
  exact ⟨d', if_pos hdir⟩

theorem EmptyAt.add {d e parent : Inode} (hd : fs.isDirectory d = true)
    (hfree : fs.entry d name = none) (hpath : fs.descend e path = some d) :
    (fs.add d name (.directory parent fun _ => none)).EmptyAt e (path ++ [name]) := by
  refine ⟨fs.next, ?_, isDirectory_add_next, fun name' => entry_add_next hd⟩
  rw [descend_append (descend_add hd hfree (isDirectory_of_descend hpath hd) hpath), descend,
    entry_add hd (ne_next_of_isDirectory hd), if_pos ⟨rfl, rfl⟩, Option.bind_some,
    if_pos isDirectory_add_next]
  rfl

end Plain

end FileSystem
end Ferrocrate.Lib
