import Ferrocrate.Rootfs.DanglingLinks
import Mathlib.Data.List.Dedup

/-! What one archive entry makes of a root filesystem: whiteouts that remove what they name, and
what is there once all layers are applied. -/
namespace Ferrocrate.Rootfs
open Lib Lib.PathTree
open scoped Lib.Path

abbrev Tree (fs : Fs) : Prop := IsTree Content.directory fs

def Listable (fs : Fs) : Prop := ∃ paths : List Path, ∀ path, fs path ≠ none → path ∈ paths

structure Host.Documented (host : Host) : Prop where
  lists : ∀ (fs : Fs) (dir : Path), Listable fs → fs dir = some .directory →
    (host.readDir fs dir).Nodup ∧ ∀ name, name ∈ host.readDir fs dir ↔ fs (dir ++ [name]) ≠ none
  links : ∀ (fs fs' : Fs) (source path : Path), fs path = none →
    host.hardLink fs source path = .ok fs' →
    ∃ content, content ≠ .directory ∧ fs' = fs.set path content
  unpacks : ∀ (fs fs' : Fs) (path : Path) (entryType : EntryType), entryType ≠ .directory →
    (∀ target, entryType ≠ .hardLink target) → host.unpack fs path entryType = .ok fs' →
    fs path ≠ some .directory ∧ ∃ content, content ≠ .directory ∧ fs' = fs.set path content

def constructRootfs (host : Host) (fs : Fs) (layers : List (List Entry)) : Except RootfsError Fs :=
  layers.foldlM (applyLayerTar host) fs

theorem constructRootfs_eq (host : Host) (fs : Fs) (layers : List (List Entry)) :
    constructRootfs host fs layers = applyLayerTar host fs layers.flatten := by
  induction layers generalizing fs with
  | nil => rfl
  | cons layer layers ih =>
    rw [constructRootfs, List.foldlM_cons, List.flatten_cons]
    show _ = (layer ++ layers.flatten).foldlM (applyEntry host) fs
    rw [List.foldlM_append]
    exact congrArg _ (funext ih)

/-! ## What an entry says -/

inductive Role where
  | opaqueWhiteout (dir : Path)
  | whiteout (target : Path)
  | content (path : Path)
  deriving DecidableEq

def roleOf (path : Path) : Role :=
  match path.getLast? with
  | some name =>
    if name = ociOpaqueWhiteout then .opaqueWhiteout path.dropLast
    else if ociWhiteoutPrefix <+: name then
      .whiteout (path.dropLast ++ [name.drop ociWhiteoutPrefix.length])
    else .content path
  | none => .content path

def Entry.role (entry : Entry) : Option Role :=
  match sanitizeArchivePath entry.path with
  | .ok path => some (roleOf path)
  | .error _ => none

def Entry.Adds (entry : Entry) (path : Path) : Prop :=
  ∃ own, entry.role = some (.content own) ∧ path <+: own

/-- The entry takes away what is at the path: a whiteout of it or of what it lies under, or what is
no directory, above it. -/
def Entry.Hides (entry : Entry) (path : Path) : Prop :=
  match entry.role with
  | some (.opaqueWhiteout dir) => dir <+: path ∧ dir ≠ path
  | some (.whiteout target) => target <+: path
  | some (.content own) => entry.entryType ≠ .directory ∧ own <+: path ∧ own ≠ path
  | none => False

def Entry.Honoured (entry : Entry) (fs : Fs) : Prop :=
  match entry.role with
  | some (.opaqueWhiteout dir) => ∀ name, fs (dir ++ [name]) = none
  | some (.whiteout target) => fs target = none
  | _ => True

/-! ## The pieces of `apply_layer_tar` -/
variable {host : Host} {fs fs' : Fs} {path : Path} {p : Path}

theorem createDirAll_eq (h : createDirAll host fs p = .ok fs') :
    fs' = fun q => if q <+: p ∧ fs q = none then some .directory else fs q := by
  have hgeneral : ∀ (steps : List Path) (fs : Fs), steps.foldlM (mkdir host) fs = .ok fs' →
      fs' = fun q => if q ∈ steps ∧ fs q = none then some .directory else fs q := by
    intro steps
    induction steps with
    | nil =>
      intro fs h
      obtain rfl : fs = fs' := Except.ok.inj h
      simp
    | cons a steps ih =>
      intro fs h
      rw [List.foldlM_cons] at h
      obtain ⟨next, hstep, hrest⟩ := Except.bind_eq_ok.mp h
      rw [ih next hrest]
      funext q
      rw [mkdir] at hstep
      split_ifs at hstep with hnone hdir
      · cases hstep
        by_cases hq : q = a
        · simp [Fs.set, hq, hnone]
        · simp [Fs.set, hq]
      · cases hstep
        by_cases hq : q = a
        · simp [hq, hnone]
        · simp [hq]
  have heq := hgeneral p.inits fs h
  simp only [List.mem_inits] at heq
  exact heq

theorem createDirAll_directory {p q : Path} (h : createDirAll host fs p = .ok fs') (hq : q <+: p)
    (hlink : ∀ target, fs q ≠ some (.symlink target)) : fs' q = some .directory := by
  rw [createDirAll_eq h]
  by_cases hnone : fs q = none
  · exact if_pos ⟨hq, hnone⟩
  · refine (if_neg fun h => hnone h.2).trans ?_
    have hgeneral : ∀ (steps : List Path) (t : Fs), q ∈ steps → t q = fs q →
        steps.foldlM (mkdir host) t = .ok fs' → t q = some .directory := by
      intro steps
      induction steps with
      | nil => intro t hmem; cases hmem
      | cons a steps ih =>
        intro t hmem ht h
        rw [List.foldlM_cons] at h
        obtain ⟨next, hstep, hrest⟩ := Except.bind_eq_ok.mp h
        rw [mkdir] at hstep
        split_ifs at hstep with hfree hdir
        · cases hstep
          have hne : q ≠ a := fun heq => hnone (by rw [← ht, heq, hfree])
          have hsame : (t.set a .directory) q = t q := if_neg hne
          rw [← hsame]
          exact ih _ ((List.mem_cons.mp hmem).resolve_left hne) (by rw [hsame, ht]) hrest
        · cases hstep
          rcases List.mem_cons.mp hmem with rfl | hmem
          · rw [isDir] at hdir
            split at hdir
            · rename_i target heq
              exact absurd (ht.symm.trans heq) (hlink target)
            · exact of_decide_eq_true hdir
          · exact ih _ hmem ht hrest
    rw [← hgeneral p.inits fs ((List.mem_inits _ _).mpr hq) rfl h]

theorem removePathIfExists_found (htree : Tree fs)
    (h : fs p = none ∨ pathExists host fs p = true) :
    removePathIfExists host fs p = fs.removeDirAll p := by
  have hbelow : fs p ≠ some .directory → ∀ q, p <+: q → p ≠ q → fs q = none :=
    fun hnot q hq hne => htree.eq_none_of_under hq hne hnot
  by_cases hexists : pathExists host fs p = true
  · exact removePathIfExists_eq hexists hbelow
  · have hnone := h.resolve_right hexists
    rw [removePathIfExists, if_neg hexists]
    funext q
    by_cases hu : p <+: q
    · by_cases hq : p = q
      · simp [Fs.removeDirAll, ← hq, hnone]
      · simp [Fs.removeDirAll, hbelow (by simp [hnone]) q hu hq]
    · simp [Fs.removeDirAll, hu]

theorem tree_removeDirAll (htree : Tree fs) (hne : p ≠ []) :
    Tree (fs.removeDirAll p) := by
  have hkept : ∀ q, ¬p <+: q → fs.removeDirAll p q = fs q := fun q hq => if_neg hq
  refine ⟨by rw [hkept [] fun h => hne (List.prefix_nil.mp h), htree.root], fun q name hq => ?_⟩
  by_cases hu : p <+: q ++ [name]
  · exact absurd (if_pos hu) hq
  · rw [hkept _ hu] at hq
    rw [hkept q fun h => hu (h.trans (List.prefix_append q [name]))]
    exact htree.parents q name hq

theorem tree_set (htree : Tree fs) {content : Content} (hne : p ≠ [])
    (hparent : fs p.dropLast = some .directory)
    (hbelow : ∀ q, p <+: q → q ≠ p → fs q = none) : Tree (fs.set p content) := by
  have hother : ∀ q, q ≠ p → fs.set p content q = fs q := fun q hq => if_neg hq
  refine ⟨by rw [hother [] hne.symm, htree.root], fun q name hq => ?_⟩
  by_cases heq : q ++ [name] = p
  · have hq' : q = p.dropLast := by rw [← heq, List.dropLast_concat]
    rw [hq', hother _ fun h => ?_, hparent]
    have hlength := congrArg List.length h
    rw [List.length_dropLast] at hlength
    exact hne (List.length_eq_zero_iff.mp (by omega))
  · rw [hother _ heq] at hq
    have hqp : q ≠ p := by
      rintro rfl
      exact hq (hbelow _ (List.prefix_append q [name]) (by simp))
    rw [hother q hqp]
    exact htree.parents q name hq

def without (fs : Fs) (dir : Path) (names : List Name) : Fs :=
  names.foldl (fun fs name => fs.removeDirAll (dir ++ [name])) fs

/-- Each name of a directory is there, links followed, when the names before it are gone. -/
def FoundInTurn (host : Host) (fs : Fs) (dir : Path) (names : List Name) : Prop :=
  ∀ before name after, names = before ++ name :: after →
    pathExists host (without fs dir before) (dir ++ [name]) = true

theorem without_apply (fs : Fs) (dir q : Path) (names : List Name) :
    without fs dir names q = if ∃ name ∈ names, dir ++ [name] <+: q then none else fs q := by
  induction names generalizing fs with
  | nil => simp [without]
  | cons name names ih =>
    rw [without, List.foldl_cons]
    refine (ih (fs.removeDirAll (dir ++ [name]))).trans ?_
    by_cases hq : dir ++ [name] <+: q
    · simp [Fs.removeDirAll, hq]
    · simp [Fs.removeDirAll, hq]

variable {dir : Path}

theorem name_eq_of_under {name other : Name}
    (h : dir ++ [name] <+: dir ++ [other]) : name = other := by
  simpa using (List.prefix_append_right_inj dir).mp h

theorem removeDirAll_sibling {name other : Name} (hne : name ≠ other) :
    fs.removeDirAll (dir ++ [name]) (dir ++ [other]) = fs (dir ++ [other]) :=
  if_neg fun h => hne (name_eq_of_under h)

theorem foldl_remove_frame {name : Name} {names : List Name} (h : name ∉ names) :
    names.foldl (fun fs name => removePathIfExists host fs (dir ++ [name])) fs (dir ++ [name]) =
      fs (dir ++ [name]) := by
  induction names generalizing fs with
  | nil => rfl
  | cons other names ih =>
    obtain ⟨hne, hrest⟩ := not_or.mp (mt List.mem_cons.mpr h)
    rw [List.foldl_cons, ih hrest]
    exact removePathIfExists_frame fun hu => hne (name_eq_of_under hu).symm

theorem foldl_remove (host : Host) {names : List Name} (htree : Tree fs)
    (hnodup : names.Nodup) (hthere : ∀ name ∈ names, fs (dir ++ [name]) ≠ none) :
    (FoundInTurn host fs dir names →
      names.foldl (fun fs name => removePathIfExists host fs (dir ++ [name])) fs =
        without fs dir names) ∧
    ((∀ name ∈ names, names.foldl
      (fun fs name => removePathIfExists host fs (dir ++ [name])) fs (dir ++ [name]) = none) →
      FoundInTurn host fs dir names) := by
  induction names generalizing fs with
  | nil => exact ⟨fun _ => rfl, fun _ before name after h => by simp at h⟩
  | cons name names ih =>
    obtain ⟨hnot, hrest⟩ := List.nodup_cons.mp hnodup
    obtain ⟨hname, hnames⟩ := List.forall_mem_cons.mp hthere
    have htree' : Tree (fs.removeDirAll (dir ++ [name])) := tree_removeDirAll htree (by simp)
    have hkept : ∀ other ∈ names, fs.removeDirAll (dir ++ [name]) (dir ++ [other]) ≠ none := by
      intro other hother
      rw [removeDirAll_sibling fun heq : name = other => hnot (heq ▸ hother)]
      exact hnames other hother
    have hnext := ih htree' hrest hkept
    rw [List.foldl_cons, without, List.foldl_cons]
    constructor
    · intro hfound
      rw [removePathIfExists_found htree (.inr (hfound [] name names rfl))]
      refine hnext.1 fun before other after hsplit => ?_
      exact hfound (name :: before) other after (congrArg (name :: ·) hsplit)
    · intro hgone
      obtain ⟨hfirst, hgone⟩ := List.forall_mem_cons.mp hgone
      have hexists : pathExists host fs (dir ++ [name]) = true := by
        by_contra hmissing
        rw [foldl_remove_frame hnot, removePathIfExists, if_neg hmissing] at hfirst
        exact hname hfirst
      rw [removePathIfExists_found htree (.inr hexists)] at hgone
      rintro (_ | ⟨first, before⟩) other after hsplit
      · obtain ⟨rfl, -⟩ := List.cons.inj hsplit
        exact hexists
      · obtain ⟨rfl, hsplit'⟩ := List.cons.inj hsplit
        exact hnext.2 hgone before other after hsplit'

/-! ## What an entry does -/

def NoLinkAbove (fs : Fs) (path : Path) : Prop :=
  ∀ a, a <+: path.dropLast → a ≠ [] → ∀ target, fs a ≠ some (.symlink target)

def Entry.WhiteoutUtf8 (entry : Entry) : Prop :=
  ∀ path name, sanitizeArchivePath entry.path = .ok path → path.getLast? = some name →
    ociWhiteoutPrefix <+: name → Path.toStringLossy name = name

theorem noLinkAbove_of_ensure (h : ensureNoSymlinkComponents fs path = .ok ()) :
    NoLinkAbove fs path := by
  intro a ha hne target hlink
  have hcheck := Except.forM_eq_ok h a (mem_tail_inits.mpr ⟨hne, ha⟩)
  simp [hlink] at hcheck

def Writes (host : Host) (entryType : EntryType) (path : Path) (fs fs' : Fs) : Prop :=
  (entryType = .directory ∧ createDirAll host fs path = .ok fs') ∨
    entryType ≠ .directory ∧ path ≠ [] ∧ ∃ made, createDirAll host fs path.dropLast = .ok made ∧
      ((∃ target, entryType = .hardLink target ∧
          applyHardLinkEntry host made target path = .ok fs') ∨
        (∀ target, entryType ≠ .hardLink target) ∧ host.unpack made path entryType = .ok fs')

def actOf (path : Path) : Role :=
  if fileName path = ociOpaqueWhiteout then .opaqueWhiteout path.dropLast
  else if ociWhiteoutPrefix <+: fileName path then
    .whiteout (path.dropLast ++ [(fileName path).drop ociWhiteoutPrefix.length])
  else .content path

theorem actOf_eq_roleOf (hutf8 : ∀ name, path.getLast? = some name → ociWhiteoutPrefix <+: name →
    Path.toStringLossy name = name) : actOf path = roleOf path := by
  unfold actOf roleOf
  cases hlast : path.getLast? with
  | none =>
    have hempty : fileName path = [] := by simp [fileName, hlast]
    rw [hempty, if_neg (by decide), if_neg (by decide)]
  | some name =>
    by_cases hprefix : ociWhiteoutPrefix <+: name
    · have hname : fileName path = name := by
        simp [fileName, hlast, Path.toStr, hutf8 name hlast hprefix]
      rw [hname]
    · have hplain : ¬ociWhiteoutPrefix <+: fileName path := by
        by_cases hlossy : Path.toStringLossy name = name
        · simpa [fileName, hlast, Path.toStr, hlossy] using hprefix
        · simp [fileName, hlast, Path.toStr, hlossy, ociWhiteoutPrefix]
      rw [if_neg (ne_ociOpaqueWhiteout hplain), if_neg hplain]
      simp only [if_neg (ne_ociOpaqueWhiteout hprefix), if_neg hprefix]

variable {entry : Entry}

theorem applyEntry_act (h : applyEntry host fs entry = .ok fs') :
    ∃ path, sanitizeArchivePath entry.path = .ok path ∧ NoLinkAbove fs path ∧
      match actOf path with
      | .opaqueWhiteout dir => clearDirectory host fs dir = .ok fs'
      | .whiteout target => fs' = removePathIfExists host fs target
      | .content own => Writes host entry.entryType own fs fs' := by
  obtain ⟨path, hpath, h⟩ := Except.bind_eq_ok.mp h
  refine ⟨path, hpath, ?_⟩
  unfold actOf
  by_cases hopaque : fileName path = ociOpaqueWhiteout
  · simp only [if_pos hopaque] at h ⊢
    obtain ⟨⟨⟩, hensure, h⟩ := Except.bind_eq_ok.mp h
    exact ⟨noLinkAbove_of_ensure hensure, h⟩
  by_cases hprefix : ociWhiteoutPrefix <+: fileName path
  · simp only [if_neg hopaque, whiteoutTargetName, if_pos hprefix] at h ⊢
    obtain ⟨target, htarget, h⟩ := Except.bind_eq_ok.mp h
    split at htarget
    · cases htarget
      obtain ⟨⟨⟩, hensure, h⟩ := Except.bind_eq_ok.mp h
      exact ⟨noLinkAbove_of_ensure hensure, (Except.ok.inj h).symm⟩
    · cases htarget
  simp only [if_neg hopaque, whiteoutTargetName_plain hprefix, if_neg hprefix] at h ⊢
  change (if entry.entryType = .directory then _ else if path = [] then _ else _) = _ at h
  by_cases hdirectory : entry.entryType = .directory
  · rw [if_pos hdirectory] at h
    obtain ⟨⟨⟩, hensure, h⟩ := Except.bind_eq_ok.mp h
    exact ⟨noLinkAbove_of_ensure hensure, .inl ⟨hdirectory, Except.mapError_eq_ok.mp h⟩⟩
  by_cases hnil : path = []
  · rw [if_neg hdirectory, if_pos hnil] at h
    cases h
  rw [if_neg hdirectory, if_neg hnil] at h
  obtain ⟨⟨⟩, hensure, h⟩ := Except.bind_eq_ok.mp h
  obtain ⟨made, hmade, h⟩ := Except.bind_eq_ok.mp h
  refine ⟨noLinkAbove_of_ensure hensure, .inr ⟨hdirectory, hnil, made, Except.mapError_eq_ok.mp hmade, ?_⟩⟩
  cases htype : entry.entryType with
  | directory => exact absurd htype hdirectory
  | file bytes =>
    rw [htype] at h
    exact .inr ⟨by simp, Except.mapError_eq_ok.mp h⟩
  | symlink target =>
    rw [htype] at h
    exact .inr ⟨by simp, Except.mapError_eq_ok.mp h⟩
  | hardLink target =>
    rw [htype] at h
    exact .inl ⟨target, rfl, h⟩

theorem applyEntry_role (hutf8 : entry.WhiteoutUtf8)
    (h : applyEntry host fs entry = .ok fs') :
    ∃ path, sanitizeArchivePath entry.path = .ok path ∧ NoLinkAbove fs path ∧
      match roleOf path with
      | .opaqueWhiteout dir => clearDirectory host fs dir = .ok fs'
      | .whiteout target => fs' = removePathIfExists host fs target
      | .content own => Writes host entry.entryType own fs fs' := by
  obtain ⟨path, hpath, hlink, heffect⟩ := applyEntry_act h
  rw [actOf_eq_roleOf (hutf8 path · hpath)] at heffect
  exact ⟨path, hpath, hlink, heffect⟩

theorem clearDirectory_ok (hlink : ∀ target, fs dir ≠ some (.symlink target))
    (h : clearDirectory host fs dir = .ok fs') :
    (fs dir = none ∧ fs' = fs) ∨ fs dir = some .directory ∧
      fs' = (host.readDir fs dir).foldl
        (fun fs name => removePathIfExists host fs (dir ++ [name])) fs := by
  rw [clearDirectory] at h
  cases hdir : fs dir with
  | none =>
    rw [if_neg (by simp [pathExists, hdir])] at h
    exact .inl ⟨rfl, (Except.ok.inj h).symm⟩
  | some content =>
    cases content with
    | directory =>
      rw [if_pos (by simp [pathExists, hdir]), if_pos (by simp [isDir, hdir])] at h
      exact .inr ⟨rfl, (Except.ok.inj h).symm⟩
    | file bytes =>
      rw [if_pos (by simp [pathExists, hdir]), if_neg (by simp [isDir, hdir])] at h
      cases h
    | symlink target => exact absurd hdir (hlink target)

def emptied (fs : Fs) (dir : Path) : Fs := fun q => if dir <+: q ∧ dir ≠ q then none else fs q

theorem without_listed (hdoc : host.Documented) (htree : Tree fs) (hlist : Listable fs) (hdir : fs dir = some .directory) :
    without fs dir (host.readDir fs dir) = emptied fs dir := by
  funext q
  rw [without_apply, emptied]
  by_cases hunder : dir <+: q ∧ dir ≠ q
  · rw [if_pos hunder]
    obtain ⟨⟨rest, rfl⟩, hne⟩ := hunder
    cases rest with
    | nil => exact absurd (List.append_nil dir).symm hne
    | cons name rest =>
      have hname : dir ++ [name] <+: dir ++ name :: rest :=
        (List.prefix_append_right_inj dir).mpr ⟨rest, rfl⟩
      split_ifs with hlisted
      · rfl
      · have hnone : fs (dir ++ [name]) = none := by
          by_contra hthere
          exact hlisted ⟨name, ((hdoc.lists fs dir hlist hdir).2 name).mpr hthere, hname⟩
        by_cases heq : dir ++ [name] = dir ++ name :: rest
        · rw [← heq, hnone]
        · exact htree.eq_none_of_under hname heq (by simp [hnone])
  · rw [if_neg hunder, if_neg]
    rintro ⟨name, -, hname⟩
    refine hunder ⟨(List.prefix_append dir [name]).trans hname, ?_⟩
    rintro rfl
    have hlength := hname.length_le
    simp at hlength

theorem emptied_of_none (htree : Tree fs) (hdir : fs dir = none) :
    emptied fs dir = fs := by
  funext q
  rw [emptied]
  split_ifs with hunder
  · exact (htree.eq_none_of_under hunder.1 hunder.2 (by simp [hdir])).symm
  · rfl

theorem tree_emptied (htree : Tree fs) (dir : Path) : Tree (emptied fs dir) := by
  refine ⟨?_, fun q name hq => ?_⟩
  · rw [emptied, if_neg, htree.root]
    exact fun h => h.2 (List.prefix_nil.mp h.1)
  · rw [emptied] at hq
    split_ifs at hq with hunder
    · exact absurd rfl hq
    · rw [emptied, if_neg, htree.parents q name hq]
      rintro ⟨hu, -⟩
      refine hunder ⟨hu.trans (List.prefix_append q [name]), ?_⟩
      rintro rfl
      have hlength := hu.length_le
      simp at hlength

theorem clearDirectory_emptied (hdoc : host.Documented) (htree : Tree fs) (hlist : Listable fs) (hlink : ∀ target, fs dir ≠ some (.symlink target))
    (h : clearDirectory host fs dir = .ok fs') :
    ((fs dir = some .directory → FoundInTurn host fs dir (host.readDir fs dir)) →
      fs' = emptied fs dir) ∧
    ((∀ name, fs' (dir ++ [name]) = none) → fs dir = some .directory →
      FoundInTurn host fs dir (host.readDir fs dir)) := by
  rcases clearDirectory_ok hlink h with ⟨hnone, rfl⟩ | ⟨hdir, rfl⟩
  · exact ⟨fun _ => (emptied_of_none htree hnone).symm, fun _ hdir => by simp [hnone] at hdir⟩
  · obtain ⟨hnodup, hlisted⟩ := hdoc.lists fs dir hlist hdir
    have hremove := foldl_remove host htree hnodup fun name hname => (hlisted name).mp hname
    refine ⟨fun hfound => ?_, fun hgone _ => hremove.2 fun name _ => hgone name⟩
    rw [hremove.1 (hfound hdir), without_listed hdoc htree hlist hdir]

theorem created_none {p q : Path} {made : Fs} (h : createDirAll host fs p = .ok made)
    (hq : ¬q <+: p) : made q = fs q := by
  rw [createDirAll_eq h]
  exact if_neg fun h => hq h.1

theorem tree_createDirAll (htree : Tree fs) {made : Fs}
    (hlink : ∀ a, a <+: p → a ≠ [] → a ≠ p → ∀ target, fs a ≠ some (.symlink target))
    (h : createDirAll host fs p = .ok made) : Tree made := by
  have hroot : made [] = some .directory :=
    createDirAll_directory h (List.nil_prefix) (by simp [htree.root])
  refine ⟨hroot, fun q name hq => ?_⟩
  by_cases hu : q ++ [name] <+: p
  · by_cases hnil : q = []
    · rw [hnil, hroot]
    · have hup : q <+: p := (List.prefix_append q [name]).trans hu
      have hne : q ≠ p := by
        rintro rfl
        have hlength := hu.length_le
        simp at hlength
      exact createDirAll_directory h hup (hlink q hup hnil hne)
  · rw [created_none h hu] at hq
    have hparent := htree.parents q name hq
    rw [createDirAll_eq h]
    exact (if_neg fun h => by simp [hparent] at h).trans hparent

theorem not_under_dropLast (hne : p ≠ []) : ¬p <+: p.dropLast := by
  intro h
  have hlength := h.length_le
  rw [List.length_dropLast] at hlength
  exact hne (List.length_eq_zero_iff.mp (by omega))

theorem under_dropLast {a p : Path} (h : a <+: p) (hne : a ≠ p) : a <+: p.dropLast := by
  rcases List.eq_nil_or_concat p with rfl | ⟨parent, name, rfl⟩
  · exact h
  · rw [List.concat_eq_append] at h hne ⊢
    rw [List.dropLast_concat]
    exact (List.prefix_concat_iff.mp h).resolve_left hne

theorem created_parents (htree : Tree fs) (hne : p ≠ []) {made : Fs}
    (h : createDirAll host fs p.dropLast = .ok made) (hp : fs p ≠ none) : made = fs := by
  rw [createDirAll_eq h]
  funext q
  refine if_neg fun hq => ?_
  have hqp : q ≠ p := by
    rintro rfl
    exact not_under_dropLast hne hq.1
  rw [htree.directory_of_under (hq.1.trans (List.dropLast_prefix p)) hqp hp] at hq
  cases hq.2

theorem applyHardLinkEntry_ok {target : Option Bytes}
    (h : applyHardLinkEntry host fs target p = .ok fs') :
    ∃ source, host.hardLink (removePathIfExists host fs p) source p = .ok fs' := by
  cases target with
  | none => cases h
  | some link =>
    obtain ⟨source, -, h⟩ := Except.bind_eq_ok.mp h
    obtain ⟨⟨⟩, -, h⟩ := Except.bind_eq_ok.mp h
    exact ⟨source, Except.mapError_eq_ok.mp h⟩

theorem Writes.result (hdoc : host.Documented) (htree : Tree fs) {entryType : EntryType}
    (hlink : NoLinkAbove fs p)
    (hreach : ∀ target, entryType = .hardLink target → fs p = none ∨ pathExists host fs p = true)
    (h : Writes host entryType p fs fs') :
    Tree fs' ∧ ((entryType = .directory ∧ createDirAll host fs p = .ok fs') ∨
      entryType ≠ .directory ∧ p ≠ [] ∧ ∃ made content,
        createDirAll host fs p.dropLast = .ok made ∧ content ≠ Content.directory ∧
          (fs p = some .directory → ∃ target, entryType = .hardLink target) ∧
          fs' = (made.removeDirAll p).set p content) := by
  rcases h with ⟨htype, hmade⟩ | ⟨htype, hne, made, hmade, hwrite⟩
  · refine ⟨tree_createDirAll htree (fun a ha hanil hap => ?_) hmade, .inl ⟨htype, hmade⟩⟩
    exact hlink a (under_dropLast ha hap) hanil
  · have htree' : Tree made :=
      tree_createDirAll htree (fun a ha hanil _ => hlink a ha hanil) hmade
    have hparent : made p.dropLast = some .directory := by
      by_cases hnil : p.dropLast = []
      · rw [hnil, htree'.root]
      · exact createDirAll_directory hmade List.prefix_rfl (hlink _ List.prefix_rfl hnil)
    have hstart : made p = fs p := created_none hmade (not_under_dropLast hne)
    have hremoved : (made.removeDirAll p) p.dropLast = some .directory :=
      (if_neg (not_under_dropLast hne)).trans hparent
    have hset : ∀ content, Tree ((made.removeDirAll p).set p content) := fun content =>
      tree_set (tree_removeDirAll htree' hne) hne hremoved fun q hq _ => if_pos hq
    obtain ⟨content, hcontent, hreplaced, rfl⟩ : ∃ content, content ≠ Content.directory ∧
        (fs p = some .directory → ∃ target, entryType = .hardLink target) ∧
          fs' = (made.removeDirAll p).set p content := by
      rcases hwrite with ⟨target, htarget, hwrite⟩ | ⟨hlinks, hwrite⟩
      · obtain ⟨source, hwrite⟩ := applyHardLinkEntry_ok hwrite
        have hfound : made p = none ∨ pathExists host made p = true := by
          by_cases hp : fs p = none
          · exact .inl (hstart.trans hp)
          · rw [created_parents htree hne hmade hp]
            exact hreach target htarget
        rw [removePathIfExists_found htree' hfound] at hwrite
        obtain ⟨content, hcontent, heq⟩ := hdoc.links _ _ _ _ (if_pos List.prefix_rfl) hwrite
        exact ⟨content, hcontent, fun _ => ⟨target, htarget⟩, heq⟩
      · obtain ⟨hnot, content, hcontent, rfl⟩ := hdoc.unpacks _ _ _ _ htype hlinks hwrite
        refine ⟨content, hcontent, fun hdir => absurd (hstart.trans hdir) hnot, ?_⟩
        funext q
        by_cases hq : q = p
        · simp [Fs.set, hq]
        · by_cases hu : p <+: q
          · simp [Fs.set, hq, Fs.removeDirAll, hu, htree'.eq_none_of_under hu (Ne.symm hq) hnot]
          · simp [Fs.set, hq, Fs.removeDirAll, hu]
    exact ⟨hset content, .inr ⟨htype, hne, made, content, hmade, hcontent, hreplaced, rfl⟩⟩

def Reaches (host : Host) (fs : Fs) (entry : Entry) : Prop :=
  match entry.role with
  | some (.opaqueWhiteout dir) =>
    fs dir = some .directory → FoundInTurn host fs dir (host.readDir fs dir)
  | some (.whiteout target) => fs target = none ∨ pathExists host fs target = true
  | some (.content path) =>
    ∀ target, entry.entryType = .hardLink target → fs path = none ∨ pathExists host fs path = true
  | none => True

theorem Writes.present (hdoc : host.Documented) (htree : Tree fs) {entryType : EntryType}
    (hlink : NoLinkAbove fs p)
    (hreach : ∀ target, entryType = .hardLink target → fs p = none ∨ pathExists host fs p = true)
    (h : Writes host entryType p fs fs') (q : Path) :
    fs' q ≠ none ↔
      q <+: p ∨ fs q ≠ none ∧ ¬(entryType ≠ .directory ∧ p <+: q ∧ p ≠ q) := by
  obtain ⟨-, ⟨htype, hmade⟩ | ⟨htype, hne, made, content, hmade, -, -, rfl⟩⟩ :=
    h.result hdoc htree hlink hreach
  · rw [createDirAll_eq hmade]
    by_cases hq : q <+: p <;> by_cases hthere : fs q = none <;> simp [hq, hthere, htype]
  · by_cases heq : q = p
    · subst heq
      simp [Fs.set]
    · have hother : (made.removeDirAll p).set p content q = made.removeDirAll p q := if_neg heq
      rw [hother, Fs.removeDirAll]
      by_cases hu : p <+: q
      · have hnot : ¬q <+: p := fun h => heq (h.eq_of_length_le hu.length_le)
        simp [hu, hnot, htype, Ne.symm heq]
      · have hup : q <+: p ↔ q <+: p.dropLast :=
          ⟨fun h => under_dropLast h heq, fun h => h.trans (List.dropLast_prefix p)⟩
        rw [createDirAll_eq hmade, hup]
        by_cases hq : q <+: p.dropLast <;> by_cases hthere : fs q = none <;> simp [hu, hq, hthere]

theorem link_above (htree : Tree fs) (hlink : NoLinkAbove fs path) (target : Bytes) :
    fs path.dropLast ≠ some (.symlink target) := by
  by_cases hnil : path.dropLast = []
  · rw [hnil, htree.root]
    simp
  · exact hlink path.dropLast List.prefix_rfl hnil target

theorem roleOf_opaque (h : roleOf path = .opaqueWhiteout dir) :
    dir = path.dropLast := by
  unfold roleOf at h
  split at h
  · split_ifs at h
    cases h
    rfl
  · cases h

theorem roleOf_content {own : Path} (h : roleOf path = .content own) : own = path := by
  unfold roleOf at h
  split at h
  · split_ifs at h
    cases h
    rfl
  · cases h
    rfl

theorem roleOf_whiteout {target : Path} (h : roleOf path = .whiteout target) : target ≠ [] := by
  unfold roleOf at h
  split at h
  · split_ifs at h
    cases h
    simp
  · cases h

theorem applyEntry_step (hdoc : host.Documented) (htree : Tree fs) (hlist : Listable fs) (hutf8 : entry.WhiteoutUtf8) (hreach : Reaches host fs entry)
    (h : applyEntry host fs entry = .ok fs') :
    Tree fs' ∧ entry.Honoured fs' ∧
      ∀ q, q ≠ [] → (fs' q ≠ none ↔ entry.Adds q ∨ fs q ≠ none ∧ ¬entry.Hides q) := by
  obtain ⟨path, hpath, hlink, heffect⟩ := applyEntry_role hutf8 h
  have hrole : entry.role = some (roleOf path) := by rw [Entry.role, hpath]
  rw [Reaches, hrole] at hreach
  simp only [Entry.Honoured, Entry.Adds, Entry.Hides, hrole]
  cases hrole' : roleOf path with
  | opaqueWhiteout dir =>
    simp only [hrole'] at heffect hreach
    have hdir := link_above htree hlink
    rw [← roleOf_opaque hrole'] at hdir
    obtain rfl := (clearDirectory_emptied hdoc htree hlist hdir heffect).1 hreach
    refine ⟨tree_emptied htree dir, fun name => ?_, fun q _ => ?_⟩
    · exact if_pos ⟨List.prefix_append dir [name], by simp⟩
    · simp [emptied, and_comm]
  | whiteout target =>
    simp only [hrole'] at heffect hreach
    rw [removePathIfExists_found htree hreach] at heffect
    subst heffect
    refine ⟨tree_removeDirAll htree (roleOf_whiteout hrole'), if_pos List.prefix_rfl, fun q _ => ?_⟩
    simp [Fs.removeDirAll, and_comm]
  | content own =>
    simp only [hrole'] at heffect hreach
    obtain rfl := roleOf_content hrole'
    refine ⟨(heffect.result hdoc htree hlink hreach).1, trivial, fun q _ => ?_⟩
    simpa using heffect.present hdoc htree hlink hreach q

theorem honoured_iff (hdoc : host.Documented) (htree : Tree fs) (hlist : Listable fs) (hutf8 : entry.WhiteoutUtf8)
    (hwhiteout : ∀ path, entry.role ≠ some (.content path))
    (h : applyEntry host fs entry = .ok fs') : entry.Honoured fs' ↔ Reaches host fs entry := by
  refine ⟨fun hgone => ?_, fun hreach => (applyEntry_step hdoc htree hlist hutf8 hreach h).2.1⟩
  obtain ⟨path, hpath, hlink, heffect⟩ := applyEntry_role hutf8 h
  have hrole : entry.role = some (roleOf path) := by rw [Entry.role, hpath]
  rw [Entry.Honoured, hrole] at hgone
  rw [Reaches, hrole]
  cases hrole' : roleOf path with
  | opaqueWhiteout dir =>
    simp only [hrole'] at heffect hgone ⊢
    have hdir := link_above htree hlink
    rw [← roleOf_opaque hrole'] at hdir
    exact (clearDirectory_emptied hdoc htree hlist hdir heffect).2 hgone
  | whiteout target =>
    simp only [hrole'] at heffect hgone ⊢
    by_contra hneither
    obtain ⟨hthere, hmissing⟩ := not_or.mp hneither
    rw [heffect, removePathIfExists, if_neg hmissing] at hgone
    exact hthere hgone
  | content own => exact absurd (hrole.trans (congrArg some hrole')) (hwhiteout own)

/-! ## Whole runs -/

structure RunReaches (host : Host) (fs : Fs) (entries : List Entry) : Prop where
  utf8 : ∀ entry ∈ entries, entry.WhiteoutUtf8
  reaches : ∀ before entry after t, entries = before ++ entry :: after →
    applyLayerTar host fs before = .ok t → Reaches host t entry

def LayerAdds (layer : List Entry) (path : Path) : Prop := ∃ entry ∈ layer, entry.Adds path

def LayerHides (layer : List Entry) (path : Path) : Prop := ∃ entry ∈ layer, entry.Hides path

def Ordered (layer : List Entry) : Prop :=
  ∀ before entry after, layer = before ++ entry :: after →
    ∀ path, entry.Hides path → ¬LayerAdds before path

def InUnion (layers : List (List Entry)) (path : Path) : Prop :=
  ∃ before layer after, layers = before ++ layer :: after ∧ LayerAdds layer path ∧
    ∀ later ∈ after, ¬LayerAdds later path ∧ ¬LayerHides later path

def InEntries (entries : List Entry) (path : Path) : Prop :=
  ∃ before entry after, entries = before ++ entry :: after ∧ entry.Adds path ∧
    ∀ later ∈ after, ¬later.Hides path

theorem inEntries_append (entries layer : List Entry) (path : Path) :
    InEntries (entries ++ layer) path ↔
      InEntries layer path ∨ InEntries entries path ∧ ¬LayerHides layer path := by
  constructor
  · rintro ⟨before, entry, after, hsplit, hadds, hafter⟩
    rcases List.append_eq_append_iff.mp hsplit with ⟨between, rfl, hlayer⟩ |
      ⟨between, rfl, hafter'⟩
    · exact .inl ⟨between, entry, after, hlayer, hadds, hafter⟩
    · cases between with
      | nil => exact .inl ⟨[], entry, after, hafter'.symm, hadds, hafter⟩
      | cons first between =>
        obtain ⟨rfl, rfl⟩ := List.cons.inj hafter'
        obtain ⟨hbetween, hlayer⟩ := List.forall_mem_append.mp hafter
        refine .inr ⟨⟨before, entry, between, rfl, hadds, hbetween⟩, ?_⟩
        rintro ⟨later, hlater, hhides⟩
        exact hlayer later hlater hhides
  · rintro (⟨before, entry, after, rfl, hadds, hafter⟩ |
      ⟨⟨before, entry, after, rfl, hadds, hafter⟩, hlayer⟩)
    · exact ⟨entries ++ before, entry, after, by rw [List.append_assoc], hadds, hafter⟩
    · refine ⟨before, entry, after ++ layer, by rw [List.append_assoc, List.cons_append], hadds, ?_⟩
      exact List.forall_mem_append.mpr ⟨hafter, fun later hlater h => hlayer ⟨later, hlater, h⟩⟩

theorem inEntries_of_ordered {layer : List Entry} (h : Ordered layer) (path : Path) :
    InEntries layer path ↔ LayerAdds layer path := by
  constructor
  · rintro ⟨before, entry, after, rfl, hadds, -⟩
    exact ⟨entry, by simp, hadds⟩
  · rintro ⟨entry, hentry, hadds⟩
    obtain ⟨before, after, rfl⟩ := List.append_of_mem hentry
    refine ⟨before, entry, after, rfl, hadds, fun later hlater hhides => ?_⟩
    obtain ⟨between, behind, rfl⟩ := List.append_of_mem hlater
    exact h (before ++ entry :: between) later behind (by simp) path hhides ⟨entry, by simp, hadds⟩

theorem inUnion_concat (layers : List (List Entry)) (layer : List Entry) (path : Path) :
    InUnion (layers ++ [layer]) path ↔
      LayerAdds layer path ∨
        InUnion layers path ∧ ¬LayerAdds layer path ∧ ¬LayerHides layer path := by
  constructor
  · rintro ⟨before, chosen, after, hsplit, hadds, hafter⟩
    rcases List.eq_nil_or_concat after with rfl | ⟨after, last, rfl⟩
    · obtain ⟨-, heq⟩ := List.append_inj' hsplit rfl
      exact .inl (List.singleton_inj.mp heq ▸ hadds)
    · rw [List.concat_eq_append] at hsplit hafter
      rw [← List.cons_append, ← List.append_assoc] at hsplit
      obtain ⟨rfl, heq⟩ := List.append_inj' hsplit rfl
      obtain rfl := List.singleton_inj.mp heq
      obtain ⟨hafter, hlast⟩ := List.forall_mem_append.mp hafter
      exact .inr ⟨⟨before, chosen, after, rfl, hadds, hafter⟩, hlast layer (by simp)⟩
  · rintro (hadds | ⟨⟨before, chosen, after, rfl, hadds, hafter⟩, hlast⟩)
    · exact ⟨layers, layer, [], rfl, hadds, nofun⟩
    · refine ⟨before, chosen, after ++ [layer], by simp, hadds, ?_⟩
      exact List.forall_mem_append.mpr ⟨hafter, List.forall_mem_singleton.mpr hlast⟩

theorem inEntries_iff_inUnion {layers : List (List Entry)} (h : ∀ layer ∈ layers, Ordered layer)
    (path : Path) : InEntries layers.flatten path ↔ InUnion layers path := by
  induction layers using List.reverseRecOn with
  | nil => simp [InEntries, InUnion]
  | append_singleton layers layer ih =>
    obtain ⟨hlayers, hlayer⟩ := List.forall_mem_append.mp h
    rw [List.flatten_append, List.flatten_singleton, inEntries_append, inUnion_concat,
      inEntries_of_ordered (hlayer layer (by simp)), ih hlayers]
    by_cases hadds : LayerAdds layer path
    · simp [hadds]
    · simp [hadds]

theorem Listable.step {fs fs' : Fs} (h : Listable fs)
    (hpresent : ∀ q, q ≠ [] → (fs' q ≠ none ↔ entry.Adds q ∨ fs q ≠ none ∧ ¬entry.Hides q)) :
    Listable fs' := by
  obtain ⟨paths, hpaths⟩ := h
  have hadds : ∃ added : List Path, ∀ q, entry.Adds q → q ∈ added := by
    cases hrole : entry.role with
    | none => exact ⟨[], fun q ⟨own, hown, _⟩ => by simp [hrole] at hown⟩
    | some role =>
      cases role with
      | content path =>
        refine ⟨path.inits, fun q ⟨own, hown, hu⟩ => (List.mem_inits _ _).mpr ?_⟩
        rw [hrole] at hown
        cases hown
        exact hu
      | opaqueWhiteout dir => exact ⟨[], fun q ⟨own, hown, _⟩ => by simp [hrole] at hown⟩
      | whiteout target => exact ⟨[], fun q ⟨own, hown, _⟩ => by simp [hrole] at hown⟩
  obtain ⟨added, hadded⟩ := hadds
  refine ⟨[] :: (added ++ paths), fun q hq => ?_⟩
  by_cases hnil : q = []
  · exact hnil ▸ List.mem_cons_self
  · refine List.mem_cons_of_mem _ (List.mem_append.mpr ?_)
    exact ((hpresent q hnil).mp hq).imp (hadded q) fun h => hpaths q h.1

theorem tree_of_run (hdoc : host.Documented) (htree : Tree fs) (hlist : Listable fs)
    {entries : List Entry} (hreach : RunReaches host fs entries)
    (h : applyLayerTar host fs entries = .ok fs') : Tree fs' ∧ Listable fs' := by
  refine foldlM_keeps (I := fun t : Fs => Tree t ∧ Listable t) ⟨htree, hlist⟩ ?_ h
  rintro before entry after t t' hsplit ht ⟨htree, hlist⟩ hstep
  have hnext := applyEntry_step hdoc htree hlist (hreach.utf8 entry (by simp [hsplit]))
    (hreach.reaches before entry after t hsplit ht) hstep
  exact ⟨hnext.1, hlist.step hnext.2.2⟩

theorem RunReaches.before {before after : List Entry}
    (h : RunReaches host fs (before ++ after)) : RunReaches host fs before where
  utf8 entry hentry := h.utf8 entry (List.mem_append_left after hentry)
  reaches first entry later t hsplit ht := by
    refine h.reaches first entry (later ++ after) t ?_ ht
    rw [hsplit, List.append_assoc, List.cons_append]

theorem step_of_run (hdoc : host.Documented) (htree : Tree fs) (hlist : Listable fs)
    {before after : List Entry} {t t' : Fs}
    (hreach : RunReaches host fs (before ++ entry :: after))
    (ht : applyLayerTar host fs before = .ok t) (hstep : applyEntry host t entry = .ok t') :
    entry.Honoured t' ∧
      ∀ q, q ≠ [] → (t' q ≠ none ↔ entry.Adds q ∨ t q ≠ none ∧ ¬entry.Hides q) := by
  obtain ⟨htree', hlist'⟩ := tree_of_run hdoc htree hlist hreach.before ht
  exact (applyEntry_step hdoc htree' hlist' (hreach.utf8 entry (by simp))
    (hreach.reaches before entry after t rfl ht) hstep).2

theorem present_of_run (hdoc : host.Documented) (htree : Tree fs) (hlist : Listable fs)
    {entries : List Entry} (hreach : RunReaches host fs entries)
    (h : applyLayerTar host fs entries = .ok fs') (path : Path) (hne : path ≠ []) :
    fs' path ≠ none ↔
      (fs path ≠ none ∧ ¬LayerHides entries path) ∨ InEntries entries path := by
  have hlast := foldlM_last_iff 
    (fun before entry after t t' hsplit ht hstep =>
      (step_of_run hdoc htree hlist (hsplit ▸ hreach) ht hstep).2 path hne) h
  rw [hlast, LayerHides, not_exists]
  refine or_congr (and_congr_right fun _ => ?_) ⟨?_, ?_⟩
  · exact ⟨fun h entry hentry => h entry hentry.1 hentry.2, fun h entry hentry hhides =>
      h entry ⟨hentry, hhides⟩⟩
  · rintro ⟨before, entry, after, t, hsplit, -, hadds, hafter⟩
    exact ⟨before, entry, after, hsplit, hadds, hafter⟩
  · rintro ⟨before, entry, after, hsplit, hadds, hafter⟩
    rw [applyLayerTar, hsplit, List.foldlM_append] at h
    obtain ⟨t, ht, -⟩ := Except.bind_eq_ok.mp h
    exact ⟨before, entry, after, t, hsplit, ht, hadds, hafter⟩

def emptyRootfs : Fs := fun path => if path = [] then some .directory else none

theorem tree_emptyRootfs : Tree emptyRootfs where
  root := rfl
  parents p name h := absurd (if_neg (by simp)) h

theorem listable_emptyRootfs : Listable emptyRootfs :=
  ⟨[[]], fun path h => by simpa [emptyRootfs] using h⟩

/-- A whiteout is honoured exactly when what it names is found with links followed; and where every
entry finds what it names, whiteouts are honoured all along a run and the root filesystem is the
union of the layers. -/
theorem whiteouts_reach_union (hdoc : host.Documented) :
    (∀ fs fs' entry, Tree fs → Listable fs → entry.WhiteoutUtf8 →
      (∀ path, entry.role ≠ some (.content path)) → applyEntry host fs entry = .ok fs' →
      (entry.Honoured fs' ↔ Reaches host fs entry)) ∧
    (∀ fs, Tree fs → Listable fs → ∀ before entry after t t',
      RunReaches host fs (before ++ entry :: after) → applyLayerTar host fs before = .ok t →
      applyEntry host t entry = .ok t' → entry.Honoured t') ∧
    ∀ layers fs', (∀ layer ∈ layers, Ordered layer) →
      RunReaches host emptyRootfs layers.flatten →
      constructRootfs host emptyRootfs layers = .ok fs' →
      ∀ path, path ≠ [] → (fs' path ≠ none ↔ InUnion layers path) := by
  refine ⟨?_, ?_, ?_⟩
  · intro fs fs' entry htree hlist hutf8 hwhiteout h
    exact honoured_iff hdoc htree hlist hutf8 hwhiteout h
  · intro fs htree hlist before entry after t t' hreach ht hstep
    exact (step_of_run hdoc htree hlist hreach ht hstep).1
  · intro layers fs' hordered hreach h path hne
    rw [constructRootfs_eq] at h
    rw [present_of_run hdoc tree_emptyRootfs listable_emptyRootfs hreach h path hne,
      inEntries_iff_inUnion hordered]
    simp [emptyRootfs, hne]

/-! ## A machine -/

open Classical in
noncomputable def namesIn (fs : Fs) (dir : Path) : List Name :=
  if h : ∃ names : List Name, names.Nodup ∧ ∀ name, name ∈ names ↔ fs (dir ++ [name]) ≠ none then
    h.choose
  else []

theorem namesIn_spec (hlist : Listable fs) :
    (namesIn fs dir).Nodup ∧ ∀ name, name ∈ namesIn fs dir ↔ fs (dir ++ [name]) ≠ none := by
  obtain ⟨paths, hpaths⟩ := hlist
  have hex : ∃ names : List Name, names.Nodup ∧
      ∀ name, name ∈ names ↔ fs (dir ++ [name]) ≠ none := by
    refine ⟨((paths.filterMap List.getLast?).filter fun name => fs (dir ++ [name]) ≠ none).dedup,
      List.nodup_dedup _, fun name => ?_⟩
    rw [List.mem_dedup, List.mem_filter, decide_eq_true_eq, and_iff_right_iff_imp]
    intro hthere
    exact List.mem_filterMap.mpr ⟨dir ++ [name], hpaths _ hthere, List.getLast?_concat⟩
  rw [namesIn, dif_pos hex]
  exact hex.choose_spec

noncomputable def listingHost : Host where
  leads := followLinks 40
  readDir := namesIn
  unpack := bareHost.unpack
  hardLink := fun fs source path =>
    match fs source, fs path with
    | some (.file bytes), none => .ok (fs.set path (.file bytes))
    | _, _ => .error (.other "link")

theorem listingHost_documented : listingHost.Documented where
  lists _ _ hlist _ := namesIn_spec hlist
  links fs fs' source path _ h := by
    simp only [listingHost] at h
    split at h
    · cases h
      exact ⟨_, by simp, rfl⟩
    · cases h
  unpacks fs fs' path entryType hdirectory hlink h := by
    simp only [listingHost, bareHost] at h
    split_ifs at h with hnot
    cases entryType with
    | directory => exact absurd rfl hdirectory
    | hardLink target => exact absurd rfl (hlink target)
    | file bytes =>
      cases h
      exact ⟨hnot, _, by simp, rfl⟩
    | symlink target =>
      cases h
      exact ⟨hnot, _, by simp, rfl⟩

theorem ordered_singleton (entry : Entry) : Ordered [entry] := by
  intro before other after hsplit path _ hadds
  obtain ⟨added, hmem, -⟩ := hadds
  have hlength := congrArg List.length hsplit
  have hpos := List.length_pos_of_mem hmem
  simp only [List.length_append, List.length_cons, List.length_nil] at hlength
  omega

def firstLayer : List Entry := [⟨[97], .file [1]⟩]

def secondLayer : List Entry := [⟨[46, 119, 104, 46, 97], .file []⟩]

theorem role_whiteout_a :
    Entry.role ⟨[46, 119, 104, 46, 97], .file []⟩ = some (.whiteout [[97]]) := by
  decide +kernel

theorem role_a : Entry.role ⟨[97], .file [1]⟩ = some (.content [[97]]) := by decide +kernel

theorem runReaches_whiteout_a :
    RunReaches listingHost emptyRootfs [firstLayer, secondLayer].flatten where
  utf8 := by
    intro entry hentry path name hpath hlast hprefix
    simp only [firstLayer, secondLayer, List.flatten_cons, List.flatten_nil, List.append_nil,
      List.cons_append, List.nil_append, List.mem_cons, List.not_mem_nil, or_false] at hentry
    rcases hentry with rfl | rfl
    · obtain rfl : [[97]] = path := Except.ok.inj
        ((show sanitizeArchivePath [97] = .ok [[97]] by decide +kernel).symm.trans hpath)
      cases hlast
      decide +kernel
    · obtain rfl : [[46, 119, 104, 46, 97]] = path := Except.ok.inj
        ((show sanitizeArchivePath [46, 119, 104, 46, 97] = .ok [[46, 119, 104, 46, 97]] by
          decide +kernel).symm.trans hpath)
      cases hlast
      decide +kernel
  reaches := by
    intro before entry after t hsplit ht
    match before, hsplit with
    | [], hsplit =>
      obtain ⟨rfl, -⟩ := List.cons.inj hsplit
      simp [Reaches, role_a]
    | [first], hsplit =>
      obtain ⟨hfirst, hrest⟩ := List.cons.inj hsplit
      obtain ⟨rfl, -⟩ := List.cons.inj hrest
      subst hfirst
      have hrun : (applyLayerTar listingHost emptyRootfs [⟨[97], .file [1]⟩]).map
          (fun fs => fs [[97]]) = .ok (some (.file [1])) := by
        decide +kernel
      rw [ht] at hrun
      have hthere : t [[97]] = some (.file [1]) := Except.ok.inj hrun
      simp [Reaches, role_whiteout_a, pathExists, hthere]
    | first :: second :: before, hsplit =>
      have hlength := congrArg List.length hsplit
      simp [firstLayer, secondLayer] at hlength

/-- What a whiteout finds is gone, and in no union. -/
theorem whiteouts_reach_union_a :
    ∃ fs', constructRootfs listingHost emptyRootfs [firstLayer, secondLayer] = .ok fs' ∧
      fs' [[97]] = none ∧ (fs' [[97]] ≠ none ↔ InUnion [firstLayer, secondLayer] [[97]]) := by
  have hrun : (constructRootfs listingHost emptyRootfs [firstLayer, secondLayer]).map
      (fun fs => fs [[97]]) = .ok none := by
    decide +kernel
  obtain ⟨fs', h, hgone⟩ := Except.map_eq_ok.mp hrun
  refine ⟨fs', h, hgone, ?_⟩
  refine (whiteouts_reach_union listingHost_documented).2.2 [firstLayer, secondLayer] fs' ?_
    runReaches_whiteout_a h [[97]] (by simp)
  intro layer hlayer
  rcases List.mem_cons.mp hlayer with rfl | hlayer
  · exact ordered_singleton _
  · obtain rfl := List.mem_singleton.mp hlayer
    exact ordered_singleton _

def linkLayer : List Entry := [⟨[122], .symlink [103]⟩]

def unlinkLayer : List Entry := [⟨[46, 119, 104, 46, 122], .file []⟩]

/-- A whiteout of a link that leads nowhere leaves it, though the union has no such path. -/
theorem dangling_link_kept :
    listingHost.Documented ∧ (∀ layer ∈ [linkLayer, unlinkLayer], Ordered layer) ∧
      ∃ fs', constructRootfs listingHost emptyRootfs [linkLayer, unlinkLayer] = .ok fs' ∧
        ¬Entry.Honoured ⟨[46, 119, 104, 46, 122], .file []⟩ fs' ∧
        fs' [[122]] ≠ none ∧ ¬InUnion [linkLayer, unlinkLayer] [[122]] := by
  have hrole : Entry.role ⟨[46, 119, 104, 46, 122], .file []⟩ = some (.whiteout [[122]]) := by
    decide +kernel
  have hrun : (constructRootfs listingHost emptyRootfs [linkLayer, unlinkLayer]).map
      (fun fs => fs [[122]]) = .ok (some (.symlink [103])) := by
    decide +kernel
  obtain ⟨fs', hfs', hkept⟩ := Except.map_eq_ok.mp hrun
  refine ⟨listingHost_documented, ?_, fs', hfs', ?_, ?_, ?_⟩
  · exact List.forall_mem_cons.mpr ⟨ordered_singleton _,
      List.forall_mem_singleton.mpr (ordered_singleton _)⟩
  · simp [Entry.Honoured, hrole, hkept]
  · simp [hkept]
  · rw [show [linkLayer, unlinkLayer] = [linkLayer] ++ [unlinkLayer] from rfl, inUnion_concat]
    simp [LayerAdds, LayerHides, unlinkLayer, Entry.Adds, Entry.Hides, hrole]

end Ferrocrate.Rootfs
