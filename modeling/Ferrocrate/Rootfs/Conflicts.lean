import Ferrocrate.Rootfs.Whiteouts

/-! The check before an upload that forbids to replace directories and other things by each other,
and what the archive that passes it can still do. -/
namespace Ferrocrate.Rootfs
open Lib Lib.PathTree
open scoped Lib.Path

inductive ConflictError where
  | rootfs (e : RootfsError)
  | overwriteNonDirectory (normalized : Path)
  | overwriteDirectory (normalized : Path)
  deriving DecidableEq

def checkEntry (symlinkMetadata : Path → Option Content) (entry : Entry) :
    Except ConflictError Unit :=
  match sanitizeArchivePath entry.path with
  | .error e => .error (.rootfs e)
  | .ok normalized =>
    if normalized = [] then .ok ()
    else
      match symlinkMetadata normalized with
      | none => .ok ()
      | some metadata =>
        if entry.entryType = .directory ∧ metadata ≠ .directory then
          .error (.overwriteNonDirectory normalized)
        else if entry.entryType ≠ .directory ∧ metadata = .directory then
          .error (.overwriteDirectory normalized)
        else .ok ()

def checkArchiveDirNonDirConflicts (symlinkMetadata : Path → Option Content)
    (entries : List Entry) : Except ConflictError Unit :=
  entries.forM (checkEntry symlinkMetadata)

def Entry.act (entry : Entry) : Option Role :=
  match sanitizeArchivePath entry.path with
  | .ok path => some (actOf path)
  | .error _ => none

def Entry.WhitesOut (entry : Entry) (path : Path) : Prop :=
  match entry.act with
  | some (.opaqueWhiteout dir) => dir <+: path ∧ dir ≠ path
  | some (.whiteout target) => target <+: path
  | _ => False

def Entry.Replaces (entry : Entry) (path : Path) : Prop :=
  entry.WhitesOut path ∨ entry.act = some (.content path) ∧ entry.entryType ≠ .directory

def Entry.Implies (entry : Entry) (path : Path) : Prop :=
  ∃ own, entry.act = some (.content own) ∧ path <+: own ∧ path ≠ own

structure Host.Copies (host : Host) (freeTarget : Fs → Path → Option Path) : Prop where
  free : ∀ fs path target, freeTarget fs path = some target →
    target ≠ [] ∧ fs target = none ∧ fs target.dropLast = some .directory
  copies : ∀ fs fs' source path, fs path ≠ none → ¬pathExists host fs path = true →
    host.hardLink fs source path = .ok fs' →
    fs' = fs ∧ freeTarget fs path = none ∨
      ∃ target bytes, freeTarget fs path = some target ∧ fs' = fs.set target (.file bytes)

def CopiesTo (host : Host) (freeTarget : Fs → Path → Option Path) (path : Path) (fs : Fs)
    (entry : Entry) : Prop :=
  ∃ own target, entry.act = some (.content own) ∧ entry.entryType = .hardLink target ∧
    fs own ≠ none ∧ ¬pathExists host fs own = true ∧ freeTarget fs own = some path

variable {host : Host} {freeTarget : Fs → Path → Option Path} {fs fs' : Fs}

theorem Writes.outcome (hdoc : host.Documented) (hcopies : host.Copies freeTarget)
    (htree : Tree fs) {entryType : EntryType} {p : Path} (hlink : NoLinkAbove fs p)
    (h : Writes host entryType p fs fs') :
    ((∀ target, entryType = .hardLink target → fs p = none ∨ pathExists host fs p = true) ∧
      Tree fs' ∧ ((entryType = .directory ∧ createDirAll host fs p = .ok fs') ∨
      entryType ≠ .directory ∧ p ≠ [] ∧ ∃ made content,
        createDirAll host fs p.dropLast = .ok made ∧ content ≠ Content.directory ∧
          (fs p = some .directory → ∃ target, entryType = .hardLink target) ∧
          fs' = (made.removeDirAll p).set p content)) ∨
    (∃ target, entryType = .hardLink target) ∧ fs p ≠ none ∧ ¬pathExists host fs p = true ∧
      (fs' = fs ∧ freeTarget fs p = none ∨
        ∃ free bytes, freeTarget fs p = some free ∧ fs' = fs.set free (.file bytes)) := by
  by_cases hreach : ∀ target, entryType = .hardLink target →
      fs p = none ∨ pathExists host fs p = true
  · exact .inl ⟨hreach, h.result hdoc htree hlink hreach⟩
  simp only [not_forall, not_or] at hreach
  obtain ⟨target, htarget, hthere, hmissing⟩ := hreach
  refine .inr ⟨⟨target, htarget⟩, hthere, hmissing, ?_⟩
  rcases h with ⟨htype, -⟩ | ⟨-, hne, made, hmade, ⟨target', -, hwrite⟩ | ⟨hnot, -⟩⟩
  · rw [htarget] at htype
    cases htype
  · rw [created_parents htree hne hmade hthere] at hwrite
    obtain ⟨source, hwrite⟩ := applyHardLinkEntry_ok hwrite
    rw [removePathIfExists, if_neg hmissing] at hwrite
    exact hcopies.copies fs fs' source p hthere hmissing hwrite
  · exact absurd htarget (hnot target)

/-! ## What removal does to one path -/

theorem removePathIfExists_path (host : Host) (fs : Fs) (p q : Path) :
    removePathIfExists host fs p q = none ∨ removePathIfExists host fs p q = fs q := by
  by_cases hu : p <+: q
  · rw [removePathIfExists]
    split_ifs
    · have hunlink : fs.unlink p q = none ∨ fs.unlink p q = fs q := ite_eq_or_eq _ _ _
      cases fs p with
      | none => exact hunlink
      | some content =>
        cases content with
        | directory => exact .inl (if_pos hu)
        | file bytes => exact hunlink
        | symlink target => exact hunlink
    · exact .inr rfl
  · exact .inr (removePathIfExists_frame hu)

theorem removePathIfExists_gone (htree : Tree fs) {p q : Path} (hu : p <+: q) (hq : fs q ≠ none)
    (hlink : ∀ target, fs q ≠ some (.symlink target)) : removePathIfExists host fs p q = none := by
  have hp : ∃ content, fs p = some content ∧ ∀ target, content ≠ .symlink target := by
    by_cases heq : p = q
    · obtain ⟨content, hcontent⟩ := Option.ne_none_iff_exists'.mp hq
      exact ⟨content, heq ▸ hcontent, fun target h => hlink target (h ▸ hcontent)⟩
    · exact ⟨.directory, htree.directory_of_under hu heq hq, by simp⟩
  obtain ⟨content, hcontent, hnot⟩ := hp
  have hexists : pathExists host fs p = true := by
    cases content with
    | symlink target => exact absurd rfl (hnot target)
    | file bytes => simp [pathExists, hcontent]
    | directory => simp [pathExists, hcontent]
  rw [removePathIfExists_found htree (.inr hexists)]
  exact if_pos hu

theorem tree_removePathIfExists (htree : Tree fs) {p : Path} (hne : p ≠ []) :
    Tree (removePathIfExists host fs p) := by
  by_cases hexists : pathExists host fs p = true
  · rw [removePathIfExists_found htree (.inr hexists)]
    exact tree_removeDirAll htree hne
  · rwa [removePathIfExists, if_neg hexists]

theorem foldl_remove_path (host : Host) (fs : Fs) (dir q : Path) (names : List Name) :
    names.foldl (fun fs name => removePathIfExists host fs (dir ++ [name])) fs q = none ∨
      names.foldl (fun fs name => removePathIfExists host fs (dir ++ [name])) fs q = fs q := by
  induction names generalizing fs with
  | nil => exact .inr rfl
  | cons name names ih =>
    rcases ih (removePathIfExists host fs (dir ++ [name])) with hnone | hsame
    · exact .inl hnone
    · rcases removePathIfExists_path host fs (dir ++ [name]) q with hnone | hkept
      · exact .inl (hsame.trans hnone)
      · exact .inr (hsame.trans hkept)

variable {names : List Name} {dir q : Path}

theorem foldl_remove_none (hq : fs q = none) :
    names.foldl (fun fs name => removePathIfExists host fs (dir ++ [name])) fs q = none :=
  (foldl_remove_path host fs dir q names).elim id fun h => h.trans hq

theorem tree_foldl_remove {dir : Path} (htree : Tree fs) :
    Tree (names.foldl (fun fs name => removePathIfExists host fs (dir ++ [name])) fs) := by
  induction names generalizing fs with
  | nil => exact htree
  | cons name names ih => exact ih (tree_removePathIfExists htree (by simp))

theorem foldl_remove_outside (host : Host) (fs : Fs)
    (h : ∀ name ∈ names, ¬dir ++ [name] <+: q) :
    names.foldl (fun fs name => removePathIfExists host fs (dir ++ [name])) fs q = fs q := by
  induction names generalizing fs with
  | nil => rfl
  | cons name names ih =>
    obtain ⟨hname, hnames⟩ := List.forall_mem_cons.mp h
    rw [List.foldl_cons, ih _ hnames]
    exact removePathIfExists_frame hname

theorem clearDirectory_path (hdoc : host.Documented) (htree : Tree fs) (hlist : Listable fs) (hdir : ∀ target, fs dir ≠ some (.symlink target))
    (h : clearDirectory host fs dir = .ok fs') :
    (¬(dir <+: q ∧ dir ≠ q) → fs' q = fs q) ∧ (fs' q = none ∨ fs' q = fs q) ∧
      (dir <+: q ∧ dir ≠ q → (∀ target, fs q ≠ some (.symlink target)) → fs' q = none) := by
  rcases clearDirectory_ok hdir h with ⟨hnone, rfl⟩ | ⟨hdirectory, rfl⟩
  · refine ⟨fun _ => rfl, .inr rfl, fun hunder _ => ?_⟩
    exact htree.eq_none_of_under hunder.1 hunder.2 (by simp [hnone])
  · refine ⟨fun hnot => ?_, foldl_remove_path host fs dir q _, fun hunder hlink => ?_⟩
    · refine foldl_remove_outside host _ fun name _ hu => hnot ?_
      refine ⟨(List.prefix_append dir _).trans hu, ?_⟩
      rintro rfl
      have hlength := hu.length_le
      simp at hlength
    · by_cases hq : fs q = none
      · exact foldl_remove_none hq
      obtain ⟨⟨rest, rfl⟩, hne⟩ := hunder
      cases rest with
      | nil => exact absurd (List.append_nil dir).symm hne
      | cons name rest =>
        have hu : dir ++ [name] <+: dir ++ name :: rest :=
          (List.prefix_append_right_inj dir).mpr ⟨rest, rfl⟩
        have hname : fs (dir ++ [name]) ≠ none := by
          intro hnone
          by_cases heq : dir ++ [name] = dir ++ name :: rest
          · exact hq (heq ▸ hnone)
          · exact hq (htree.eq_none_of_under hu heq (by simp [hnone]))
        obtain ⟨hnodup, hlisted⟩ := hdoc.lists fs dir hlist hdirectory
        obtain ⟨before, after, hsplit⟩ := List.append_of_mem ((hlisted name).mpr hname)
        rw [hsplit] at hnodup ⊢
        have hnot : ∀ other ∈ before, ¬dir ++ [other] <+: dir ++ name :: rest := by
          intro other hother hu'
          have hsame : other = name := by
            simpa using (List.prefix_append_right_inj dir).mp hu'
          exact (List.nodup_append.mp hnodup).2.2 other hother name (by simp) hsame
        rw [List.foldl_append, List.foldl_cons]
        have hkept := foldl_remove_outside host fs hnot
        refine foldl_remove_none (removePathIfExists_gone (tree_foldl_remove htree) hu ?_ ?_)
        · rwa [hkept]
        · rwa [hkept]

theorem actOf_opaque {path dir : Path} (h : actOf path = .opaqueWhiteout dir) :
    dir = path.dropLast := by
  unfold actOf at h
  split_ifs at h
  cases h
  rfl

theorem actOf_content {path own : Path} (h : actOf path = .content own) : own = path := by
  unfold actOf at h
  split_ifs at h
  cases h
  rfl

theorem actOf_whiteout {path target : Path} (h : actOf path = .whiteout target) :
    target ≠ [] := by
  unfold actOf at h
  split_ifs at h
  cases h
  simp

/-! ## One step -/

variable {entry : Entry}

theorem whiteout_path (hdoc : host.Documented) (htree : Tree fs) (hlist : Listable fs) (hwhiteout : ∀ own, entry.act ≠ some (.content own))
    (h : applyEntry host fs entry = .ok fs') (q : Path) :
    (¬entry.WhitesOut q → fs' q = fs q) ∧ (fs' q = none ∨ fs' q = fs q) ∧
      (entry.WhitesOut q → (∀ target, fs q ≠ some (.symlink target)) → fs' q = none) := by
  obtain ⟨path, hpath, hlink, heffect⟩ := applyEntry_act h
  have hact : entry.act = some (actOf path) := by rw [Entry.act, hpath]
  simp only [Entry.WhitesOut, hact]
  cases hact' : actOf path with
  | opaqueWhiteout dir =>
    simp only [hact'] at heffect ⊢
    have hdir := link_above htree hlink
    rw [← actOf_opaque hact'] at hdir
    exact clearDirectory_path hdoc htree hlist hdir heffect
  | whiteout target =>
    simp only [hact'] at heffect ⊢
    rw [heffect]
    refine ⟨removePathIfExists_frame, removePathIfExists_path host fs target q, ?_⟩
    intro hu hnot
    by_cases hq : fs q = none
    · exact (removePathIfExists_path host fs target q).elim id fun h => h.trans hq
    · exact removePathIfExists_gone htree hu hq hnot
  | content own => exact absurd (hact.trans (congrArg some hact')) (hwhiteout own)

variable {own : Path}

theorem writes_of_content (hact : entry.act = some (.content own))
    (h : applyEntry host fs entry = .ok fs') :
    NoLinkAbove fs own ∧ Writes host entry.entryType own fs fs' := by
  obtain ⟨path, hpath, hlink, heffect⟩ := applyEntry_act h
  have hact' : actOf path = .content own := by
    rw [Entry.act, hpath] at hact
    exact Option.some.inj hact
  simp only [hact'] at heffect
  exact ⟨actOf_content hact' ▸ hlink, heffect⟩

theorem not_whitesOut (hact : entry.act = some (.content own))
    (q : Path) : ¬entry.WhitesOut q := by
  simp [Entry.WhitesOut, hact]

theorem not_directory_of_unfound {p : Path} (hmissing : ¬pathExists host fs p = true) :
    fs p ≠ some .directory := by
  intro hdir
  exact hmissing (by simp [pathExists, hdir])

theorem directory_step (hdoc : host.Documented) (hcopies : host.Copies freeTarget)
    (htree : Tree fs) (hlist : Listable fs) {a : Path} (hne : a ≠ [])
    (hown : ∀ own, entry.act = some (.content own) → own ≠ [] →
      (entry.entryType ≠ .directory → own <+: a → own = a) ∧
      (entry.entryType = .directory → own ≠ a))
    (h : applyEntry host fs entry = .ok fs') :
    fs' a = some .directory ↔
      entry.Implies a ∨ fs a = some .directory ∧ ¬entry.Replaces a := by
  by_cases hcontent : ∃ own, entry.act = some (.content own)
  · obtain ⟨own, hact⟩ := hcontent
    obtain ⟨hlink, hwrites⟩ := writes_of_content hact h
    have himplies : entry.Implies a ↔ a <+: own ∧ a ≠ own := by
      simp [Entry.Implies, hact]
    have hreplaces : entry.Replaces a ↔ own = a ∧ entry.entryType ≠ .directory := by
      simp [Entry.Replaces, Entry.WhitesOut, hact]
    rw [himplies, hreplaces]
    have habove : a <+: own → a ≠ own → ∀ target, fs a ≠ some (.symlink target) :=
      fun hu haown => hlink a (under_dropLast hu haown) hne
    rcases hwrites.outcome hdoc hcopies htree hlink with
      ⟨-, -, ⟨htype, hmade⟩ | ⟨htype, hownne, made, content, hmade, hcontent, -, rfl⟩⟩ |
      ⟨-, hthere, hmissing, hcopied⟩
    · have haown : own = [] ∨ own ≠ a := by
        by_cases hnil : own = []
        · exact .inl hnil
        · exact .inr ((hown own hact hnil).2 htype)
      have haown : a ≠ own := by
        rcases haown with rfl | haown
        · exact hne
        · exact haown.symm
      by_cases hu : a <+: own
      · simp [createDirAll_directory hmade hu (habove hu haown), hu, haown]
      · simp [created_none hmade hu, hu, htype]
    · by_cases haown : a = own
      · subst haown
        simp [Fs.set, hcontent, htype]
      · have hnot : ¬own <+: a := fun hu => haown ((hown own hact hownne).1 htype hu).symm
        have hat : (made.removeDirAll own).set own content a = made a :=
          (if_neg haown).trans (if_neg hnot)
        rw [hat]
        by_cases hu : a <+: own
        · have hup := under_dropLast hu haown
          simp [createDirAll_directory hmade hup (habove hu haown), hu, haown]
        · have hup : ¬a <+: own.dropLast := fun h => hu (h.trans (List.dropLast_prefix own))
          simp [created_none hmade hup, hu, Ne.symm haown]
    · have hsame : fs' a = some .directory ↔ fs a = some .directory := by
        rcases hcopied with ⟨rfl, -⟩ | ⟨free, bytes, hfree, rfl⟩
        · rfl
        · by_cases hafree : a = free
          · simp [Fs.set, hafree, (hcopies.free fs own free hfree).2.1]
          · simp [Fs.set, hafree]
      rw [hsame]
      constructor
      · intro hdir
        refine .inr ⟨hdir, fun h => not_directory_of_unfound hmissing (h.1 ▸ hdir)⟩
      · rintro (⟨hu, haown⟩ | ⟨hdir, -⟩)
        · exact htree.directory_of_under hu haown hthere
        · exact hdir
  · have hwhiteout : ∀ own, entry.act ≠ some (.content own) := not_exists.mp hcontent
    obtain ⟨houtside, hpath, hinside⟩ := whiteout_path hdoc htree hlist hwhiteout h a
    have himplies : ¬entry.Implies a := not_exists.mpr fun own h => hwhiteout own h.1
    have hreplaces : entry.Replaces a ↔ entry.WhitesOut a := by
      simp [Entry.Replaces, hwhiteout a]
    rw [hreplaces, or_iff_right himplies]
    constructor
    · intro hdir
      have hbefore : fs a = some .directory :=
        (hpath.resolve_left (by simp [hdir])).symm.trans hdir
      refine ⟨hbefore, fun hcovers => ?_⟩
      have hgone := hinside hcovers (by simp [hbefore])
      simp [hgone] at hdir
    · rintro ⟨hdir, hnot⟩
      rw [houtside hnot, hdir]

def IsFile (fs : Fs) (path : Path) : Prop := ∃ bytes, fs path = some (.file bytes)

theorem file_step (hdoc : host.Documented) (hcopies : host.Copies freeTarget)
    (htree : Tree fs) (hlist : Listable fs) {d : Path}
    (hlinkd : ∀ target, fs d ≠ some (.symlink target))
    (hown : ∀ own, entry.act = some (.content own) → own ≠ [] → entry.entryType ≠ .directory →
      ¬own <+: d)
    (h : applyEntry host fs entry = .ok fs') :
    (∀ target, fs' d ≠ some (.symlink target)) ∧
      (IsFile fs' d ↔
        CopiesTo host freeTarget d fs entry ∨ IsFile fs d ∧ ¬entry.WhitesOut d) := by
  by_cases hcontent : ∃ own, entry.act = some (.content own)
  · obtain ⟨own, hact⟩ := hcontent
    obtain ⟨hlink, hwrites⟩ := writes_of_content hact h
    rw [and_iff_left (not_whitesOut hact d)]
    have hmade : ∀ {p : Path} {made : Fs}, createDirAll host fs p = .ok made →
        made d = fs d ∨ fs d = none ∧ made d = some .directory := by
      intro p made hmade
      rw [createDirAll_eq hmade]
      by_cases hd : d <+: p ∧ fs d = none
      · exact .inr ⟨hd.2, if_pos hd⟩
      · exact .inl (if_neg hd)
    have hkeeps : ∀ {made : Fs}, (made d = fs d ∨ fs d = none ∧ made d = some .directory) →
        (∀ target, made d ≠ some (.symlink target)) ∧ (IsFile made d ↔ IsFile fs d) := by
      rintro made (hsame | ⟨hnone, hdir⟩)
      · exact ⟨fun target => hsame ▸ hlinkd target, by rw [IsFile, IsFile, hsame]⟩
      · exact ⟨by simp [hdir], by simp [IsFile, hnone, hdir]⟩
    rcases hwrites.outcome hdoc hcopies htree hlink with
      ⟨hreach, -, ⟨htype, hcreated⟩ | ⟨htype, hownne, made, content, hcreated, -, -, rfl⟩⟩ |
      ⟨⟨target, htarget⟩, hthere, hmissing, hcopied⟩
    · have hcopy : ¬CopiesTo host freeTarget d fs entry := by
        rintro ⟨own', target, -, htarget, -⟩
        simp [htype] at htarget
      rw [or_iff_right hcopy]
      exact hkeeps (hmade hcreated)
    · have hcopy : ¬CopiesTo host freeTarget d fs entry := by
        rintro ⟨own', target, hact', htarget, hthere, hmissing, -⟩
        cases hact.symm.trans hact'
        exact (hreach target htarget).elim hthere hmissing
      have hnot := hown own hact hownne htype
      have hat : (made.removeDirAll own).set own content d = made d :=
        (if_neg fun heq : d = own => hnot (heq ▸ List.prefix_rfl)).trans (if_neg hnot)
      rw [or_iff_right hcopy]
      have hkept := hkeeps (hmade hcreated)
      exact ⟨fun target => hat ▸ hkept.1 target, by rw [IsFile, hat]; exact hkept.2⟩
    · have hcopy : CopiesTo host freeTarget d fs entry ↔ freeTarget fs own = some d := by
        constructor
        · rintro ⟨own', target', hact', -, -, -, hfree⟩
          cases hact.symm.trans hact'
          exact hfree
        · exact fun hfree => ⟨own, target, hact, htarget, hthere, hmissing, hfree⟩
      rw [hcopy]
      rcases hcopied with ⟨rfl, hnone⟩ | ⟨free, bytes, hfree, rfl⟩
      · simp [hnone, hlinkd]
      · by_cases hdfree : d = free
        · subst hdfree
          simp [Fs.set, IsFile, hfree]
        · simp [Fs.set, IsFile, hdfree, hfree, Ne.symm hdfree, hlinkd]
  · have hwhiteout : ∀ own, entry.act ≠ some (.content own) := not_exists.mp hcontent
    obtain ⟨houtside, hpath, hinside⟩ := whiteout_path hdoc htree hlist hwhiteout h d
    have hcopy : ¬CopiesTo host freeTarget d fs entry := by
      rintro ⟨own, -, hact, -⟩
      exact hwhiteout own hact
    rw [or_iff_right hcopy]
    by_cases hcovers : entry.WhitesOut d
    · have hgone := hinside hcovers hlinkd
      simp [hgone, IsFile, hcovers]
    · rw [IsFile, IsFile, houtside hcovers]
      simp [hlinkd, hcovers]

theorem tree_step (hdoc : host.Documented) (hcopies : host.Copies freeTarget) (htree : Tree fs)
    (hlist : Listable fs) (h : applyEntry host fs entry = .ok fs') :
    Tree fs' ∧ Listable fs' := by
  obtain ⟨paths, hpaths⟩ := hlist
  by_cases hcontent : ∃ own, entry.act = some (.content own)
  · obtain ⟨own, hact⟩ := hcontent
    obtain ⟨hlink, hwrites⟩ := writes_of_content hact h
    have hcreated : ∀ {p : Path} {made : Fs}, createDirAll host fs p = .ok made → ∀ q,
        made q ≠ none → q ∈ p.inits ++ paths := by
      intro p made hmade q hq
      by_cases hu : q <+: p
      · exact List.mem_append_left _ ((List.mem_inits _ _).mpr hu)
      · rw [created_none hmade hu] at hq
        exact List.mem_append_right _ (hpaths q hq)
    rcases hwrites.outcome hdoc hcopies htree hlink with
      ⟨-, htree', ⟨-, hmade⟩ | ⟨-, -, made, content, hmade, -, -, rfl⟩⟩ |
      ⟨-, -, -, hcopied⟩
    · exact ⟨htree', _, hcreated hmade⟩
    · refine ⟨htree', own :: (own.dropLast.inits ++ paths), fun q hq => ?_⟩
      by_cases hqown : q = own
      · exact hqown ▸ List.mem_cons_self
      · refine List.mem_cons_of_mem _ (hcreated hmade q fun hnone => hq ?_)
        refine (if_neg hqown).trans ?_
        rw [Fs.removeDirAll, hnone, ite_self]
    · rcases hcopied with ⟨rfl, -⟩ | ⟨free, bytes, hfree, rfl⟩
      · exact ⟨htree, paths, hpaths⟩
      · obtain ⟨hne, hnone, hparent⟩ := hcopies.free fs own free hfree
        refine ⟨tree_set htree hne hparent fun q hq hqne => ?_, free :: paths, fun q hq => ?_⟩
        · exact htree.eq_none_of_under hq hqne.symm (by simp [hnone])
        · by_cases hqfree : q = free
          · exact hqfree ▸ List.mem_cons_self
          · exact List.mem_cons_of_mem _ (hpaths q fun hnone => hq ((if_neg hqfree).trans hnone))
  · have hwhiteout : ∀ own, entry.act ≠ some (.content own) := not_exists.mp hcontent
    refine ⟨?_, paths, fun q hq => hpaths q ?_⟩
    · obtain ⟨path, hpath, hlink, heffect⟩ := applyEntry_act h
      have hact : entry.act = some (actOf path) := by rw [Entry.act, hpath]
      cases hact' : actOf path with
      | opaqueWhiteout dir =>
        simp only [hact'] at heffect
        have hdir := link_above htree hlink
        rw [← actOf_opaque hact'] at hdir
        rcases clearDirectory_ok hdir heffect with ⟨-, rfl⟩ | ⟨-, rfl⟩
        · exact htree
        · exact tree_foldl_remove htree
      | whiteout target =>
        simp only [hact'] at heffect
        rw [heffect]
        exact tree_removePathIfExists htree (actOf_whiteout hact')
      | content own => exact absurd (hact.trans (congrArg some hact')) (hwhiteout own)
    · obtain ⟨-, hsame, -⟩ := whiteout_path hdoc htree ⟨paths, hpaths⟩ hwhiteout h q
      exact (hsame.resolve_left hq) ▸ hq

variable {entries : List Entry}

theorem tree_of_steps (hdoc : host.Documented) (hcopies : host.Copies freeTarget)
    (htree : Tree fs) (hlist : Listable fs)
    (h : applyLayerTar host fs entries = .ok fs') : Tree fs' ∧ Listable fs' := by
  refine foldlM_keeps (I := fun t : Fs => Tree t ∧ Listable t) ⟨htree, hlist⟩ ?_ h
  rintro _ entry _ t t' _ _ ⟨htree, hlist⟩ hstep
  exact tree_step hdoc hcopies htree hlist hstep

/-! ## The contract -/

/-- No directory has become anything else, and nothing else a directory. -/
def KindsKept (fs fs' : Fs) : Prop :=
  ∀ path, (fs path = some .directory → fs' path = none ∨ fs' path = some .directory) ∧
    ∀ content, fs path = some content → content ≠ .directory → fs' path ≠ some .directory

/-- A path that an entry makes a directory without naming it, and that was something else, is
whited out or replaced by a later entry. -/
def ParentsStand (fs : Fs) (entries : List Entry) : Prop :=
  ∀ before entry after, entries = before ++ entry :: after → ∀ path, entry.Implies path →
    ∀ content, fs path = some content → content ≠ .directory →
      ∃ later ∈ after, later.Replaces path

/-- A directory that is the place a hard link over a dangling link copies to is whited out
by a later entry. -/
def CopiesGone (host : Host) (freeTarget : Fs → Path → Option Path) (fs : Fs)
    (entries : List Entry) : Prop :=
  ∀ before entry after t, entries = before ++ entry :: after →
    applyLayerTar host fs before = .ok t → ∀ path, CopiesTo host freeTarget path t entry →
      fs path = some .directory → ∃ later ∈ after, later.WhitesOut path

variable {symlinkMetadata : Path → Option Content}

theorem checked_entry
    (hact : entry.act = some (.content own)) (hne : own ≠ [])
    (hmetadata : symlinkMetadata own = fs own)
    (h : checkEntry symlinkMetadata entry = .ok ()) :
    (entry.entryType ≠ .directory → fs own ≠ some .directory) ∧
      (entry.entryType = .directory → fs own = none ∨ fs own = some .directory) := by
  cases hpath : sanitizeArchivePath entry.path with
  | error e => simp [Entry.act, hpath] at hact
  | ok path =>
    obtain rfl : own = path := by
      rw [Entry.act, hpath] at hact
      exact actOf_content (Option.some.inj hact)
    simp only [checkEntry, hpath, if_neg hne, hmetadata] at h
    cases hown : fs own with
    | none => simp
    | some content =>
      simp only [hown] at h
      split_ifs at h with hdirectory hother
      · refine ⟨fun htype hsome => hother ⟨htype, Option.some.inj hsome⟩, fun htype => .inr ?_⟩
        by_contra hnot
        exact hdirectory ⟨htype, fun heq => hnot (congrArg some heq)⟩

def Checked (fs : Fs) (entries : List Entry) : Prop :=
  ∀ entry ∈ entries, ∀ own, entry.act = some (.content own) → own ≠ [] →
    (entry.entryType ≠ .directory → fs own ≠ some .directory) ∧
      (entry.entryType = .directory → fs own = none ∨ fs own = some .directory)

theorem checked_of_check
    (hmetadata : ∀ path, NoLinkAbove fs path → symlinkMetadata path = fs path)
    (hlinks : ∀ entry ∈ entries, ∀ path, sanitizeArchivePath entry.path = .ok path →
      NoLinkAbove fs path)
    (hcheck : checkArchiveDirNonDirConflicts symlinkMetadata entries = .ok ()) :
    Checked fs entries := by
  intro entry hentry own hact hne
  have hpath : sanitizeArchivePath entry.path = .ok own := by
    cases hpath : sanitizeArchivePath entry.path with
    | error e => simp [Entry.act, hpath] at hact
    | ok path =>
      rw [Entry.act, hpath] at hact
      rw [actOf_content (Option.some.inj hact)]
  exact checked_entry hact hne (hmetadata own (hlinks entry hentry own hpath))
    (Except.forM_eq_ok hcheck entry hentry)

theorem directory_iff_implied (hdoc : host.Documented) (hcopies : host.Copies freeTarget) (htree : Tree fs) (hlist : Listable fs) (hchecked : Checked fs entries)
    (h : applyLayerTar host fs entries = .ok fs') {path : Path} {content : Content}
    (hpath : fs path = some content) (hother : content ≠ .directory) :
    fs' path = some .directory ↔ ∃ before entry after t, entries = before ++ entry :: after ∧
      applyLayerTar host fs before = .ok t ∧ entry.Implies path ∧
        ∀ later ∈ after, ¬later.Replaces path := by
  have hnot : fs path ≠ some .directory := fun heq => hother (Option.some.inj (hpath ▸ heq))
  have hne : path ≠ [] := fun hnil => hnot (hnil ▸ htree.root)
  refine (foldlM_last_iff (K := fun t : Fs => t path = some .directory)
    (M := fun _ entry => Entry.Implies entry path)
    (T := fun entry => Entry.Replaces entry path) ?_ h).trans
      (or_iff_right fun hstart => hnot hstart.1)
  intro before entry after t t' hsplit ht hstep
  obtain ⟨htree', hlist'⟩ := tree_of_steps hdoc hcopies htree hlist ht
  refine directory_step hdoc hcopies htree' hlist' hne (fun own hact hown => ?_) hstep
  obtain ⟨hnondir, hdir⟩ := hchecked entry (by simp [hsplit]) own hact hown
  refine ⟨fun htype hu => ?_, fun htype heq => ?_⟩
  · by_contra hstrict
    exact hnondir htype (htree.directory_of_under hu hstrict (by simp [hpath]))
  · rw [heq, hpath] at hdir
    exact (hdir htype).elim (by simp) fun heq => hother (Option.some.inj heq)

theorem file_iff_copied (hdoc : host.Documented) (hcopies : host.Copies freeTarget) (htree : Tree fs) (hlist : Listable fs) (hchecked : Checked fs entries)
    (h : applyLayerTar host fs entries = .ok fs') {path : Path}
    (hpath : fs path = some .directory) :
    (∀ target, fs' path ≠ some (.symlink target)) ∧
      (IsFile fs' path ↔ ∃ before entry after t, entries = before ++ entry :: after ∧
        applyLayerTar host fs before = .ok t ∧ CopiesTo host freeTarget path t entry ∧
          ∀ later ∈ after, ¬later.WhitesOut path) := by
  have hstep : ∀ before entry after t t', entries = before ++ entry :: after →
      applyLayerTar host fs before = .ok t → (∀ target, t path ≠ some (.symlink target)) →
      applyEntry host t entry = .ok t' → (∀ target, t' path ≠ some (.symlink target)) ∧
        (IsFile t' path ↔
          CopiesTo host freeTarget path t entry ∨ IsFile t path ∧ ¬entry.WhitesOut path) := by
    intro before entry after t t' hsplit ht hlink hstep
    obtain ⟨htree', hlist'⟩ := tree_of_steps hdoc hcopies htree hlist ht
    refine file_step hdoc hcopies htree' hlist' hlink (fun own hact hown htype hu => ?_) hstep
    refine (hchecked entry (by simp [hsplit]) own hact hown).1 htype ?_
    by_cases heq : own = path
    · rw [heq, hpath]
    · exact htree.directory_of_under hu heq (by simp [hpath])
  have hlinkfree : ∀ before after t, entries = before ++ after →
      applyLayerTar host fs before = .ok t → ∀ target, t path ≠ some (.symlink target) := by
    intro before after t hsplit ht
    refine foldlM_keeps (I := fun t : Fs => ∀ target, t path ≠ some (.symlink target))
      (by simp [hpath]) ?_ ht
    intro first entry later u u' hfirst hu hlink hnext
    refine (hstep first entry (later ++ after) u u' ?_ hu hlink hnext).1
    rw [hsplit, hfirst, List.append_assoc, List.cons_append]
  refine ⟨hlinkfree entries [] fs' (List.append_nil entries).symm h, ?_⟩
  have hstart : ¬IsFile fs path := by simp [IsFile, hpath]
  refine (foldlM_last_iff (K := fun t : Fs => IsFile t path)
    (M := fun t entry => CopiesTo host freeTarget path t entry)
    (T := fun entry => Entry.WhitesOut entry path) ?_ h).trans
      (or_iff_right fun h => hstart h.1)
  intro before entry after t t' hsplit ht hnext
  exact (hstep before entry after t t' hsplit ht (hlinkfree before _ t hsplit ht) hnext).2

/-- An archive that passes the check and is applied keeps directories and all other things apart
exactly when nothing that it removes comes back as a parent directory, or as the copy that a hard
link makes through a dangling link. -/
theorem kinds_kept_iff (hdoc : host.Documented) (hcopies : host.Copies freeTarget)
    (symlinkMetadata : Path → Option Content)
    (hmetadata : ∀ path, NoLinkAbove fs path → symlinkMetadata path = fs path)
    {entries : List Entry} (htree : Tree fs) (hlist : Listable fs)
    (hlinks : ∀ entry ∈ entries, ∀ path, sanitizeArchivePath entry.path = .ok path →
      NoLinkAbove fs path)
    (hcheck : checkArchiveDirNonDirConflicts symlinkMetadata entries = .ok ())
    (h : applyLayerTar host fs entries = .ok fs') :
    KindsKept fs fs' ↔ ParentsStand fs entries ∧ CopiesGone host freeTarget fs entries := by
  have hchecked := checked_of_check hmetadata hlinks hcheck
  have hdirectories : ∀ path content, fs path = some content → content ≠ .directory → _ :=
    fun _ _ => directory_iff_implied hdoc hcopies htree hlist hchecked h
  have hfiles : ∀ path, fs path = some .directory → _ :=
    fun _ => file_iff_copied hdoc hcopies htree hlist hchecked h
  constructor
  · intro hkept
    refine ⟨fun before entry after hsplit path himplies content hpath hother => ?_, ?_⟩
    · by_contra hnone
      obtain ⟨t, ht⟩ : ∃ t, applyLayerTar host fs before = .ok t := by
        rw [applyLayerTar, hsplit, List.foldlM_append] at h
        exact ⟨_, (Except.bind_eq_ok.mp h).choose_spec.1⟩
      refine (hkept path).2 content hpath hother ((hdirectories path content hpath hother).mpr
        ⟨before, entry, after, t, hsplit, ht, himplies, fun later hlater hreplaces => ?_⟩)
      exact hnone ⟨later, hlater, hreplaces⟩
    · intro before entry after t hsplit ht path hcopy hpath
      by_contra hnone
      obtain ⟨bytes, hfile⟩ := (hfiles path hpath).2.mpr
        ⟨before, entry, after, t, hsplit, ht, hcopy, fun later hlater hcovers =>
          hnone ⟨later, hlater, hcovers⟩⟩
      have hkind := (hkept path).1 hpath
      simp [hfile] at hkind
  · rintro ⟨hparents, hcopies'⟩ path
    refine ⟨fun hpath => ?_, fun content hpath hother hdir => ?_⟩
    · cases hfinal : fs' path with
      | none => exact .inl rfl
      | some content =>
        cases content with
        | directory => exact .inr rfl
        | symlink target => exact absurd hfinal ((hfiles path hpath).1 target)
        | file bytes =>
          obtain ⟨before, entry, after, t, hsplit, ht, hcopy, hafter⟩ :=
            (hfiles path hpath).2.mp ⟨bytes, hfinal⟩
          obtain ⟨later, hlater, hcovers⟩ :=
            hcopies' before entry after t hsplit ht path hcopy hpath
          exact absurd hcovers (hafter later hlater)
    · obtain ⟨before, entry, after, t, hsplit, ht, himplies, hafter⟩ :=
        (hdirectories path content hpath hother).mp hdir
      obtain ⟨later, hlater, hreplaces⟩ :=
        hparents before entry after hsplit path himplies content hpath hother
      exact hafter later hlater hreplaces

/-! ## A file that becomes a directory -/

theorem listingHost_copies : listingHost.Copies fun _ _ => none where
  free _ _ _ h := by cases h
  copies fs fs' source path hthere _ h := by
    simp only [listingHost] at h
    split at h
    · next hfree => exact absurd hfree hthere
    · cases h

def fileRootfs : Fs := emptyRootfs.set [[97]] (.file [1])

theorem tree_fileRootfs : Tree fileRootfs := by
  refine tree_set tree_emptyRootfs (by simp) rfl fun q hq hne => if_neg ?_
  rintro rfl
  exact absurd (List.prefix_nil.mp hq) (by simp)

theorem listable_fileRootfs : Listable fileRootfs := by
  refine ⟨[[], [[97]]], fun path h => ?_⟩
  by_contra hnot
  simp only [List.mem_cons, List.not_mem_nil, or_false, not_or] at hnot
  exact h ((if_neg hnot.2).trans (if_neg hnot.1))

def plainArchive : List Entry := [⟨[46, 119, 104, 46, 97], .file []⟩, ⟨[98], .file [2]⟩]

def nestedArchive : List Entry := [⟨[46, 119, 104, 46, 97], .file []⟩, ⟨[97, 47, 98], .file [2]⟩]

theorem kinds_kept_plainArchive :
    ∃ fs', applyLayerTar listingHost fileRootfs plainArchive = .ok fs' ∧
      KindsKept fileRootfs fs' := by
  have hrun : (applyLayerTar listingHost fileRootfs plainArchive).map (fun fs => fs [[98]]) =
      .ok (some (.file [2])) := by
    decide +kernel
  obtain ⟨fs', h, -⟩ := Except.map_eq_ok.mp hrun
  have hfirst : Entry.act ⟨[46, 119, 104, 46, 97], .file []⟩ = some (.whiteout [[97]]) := by
    decide +kernel
  have hsecond : Entry.act ⟨[98], .file [2]⟩ = some (.content [[98]]) := by decide +kernel
  have hact : ∀ entry ∈ plainArchive, ∀ own, entry.act = some (.content own) → own = [[98]] := by
    intro entry hentry own hown
    rcases List.mem_cons.mp hentry with rfl | hentry
    · simp [hfirst] at hown
    · obtain rfl := List.mem_singleton.mp hentry
      cases hsecond.symm.trans hown
      rfl
  have hmem : ∀ {before after : List Entry} {entry : Entry},
      plainArchive = before ++ entry :: after → entry ∈ plainArchive := by
    intro before after entry hsplit
    rw [hsplit]
    simp
  refine ⟨fs', h, (kinds_kept_iff listingHost_documented listingHost_copies fileRootfs
    (fun _ _ => rfl) tree_fileRootfs listable_fileRootfs ?_ ?_ h).mpr ⟨?_, ?_⟩⟩
  · have hpaths : ∀ entry ∈ plainArchive,
        (sanitizeArchivePath entry.path).map List.length = .ok 1 := by
      decide +kernel
    intro entry hentry path hpath a ha hne
    have hlength := hpaths entry hentry
    rw [hpath] at hlength
    have hone : path.length = 1 := Except.ok.inj hlength
    have hle := ha.length_le
    rw [List.length_dropLast, hone] at hle
    exact absurd (List.length_eq_zero_iff.mp (Nat.le_zero.mp hle)) hne
  · decide +kernel
  · rintro before entry after hsplit path ⟨own, hown, hu, hne⟩ content hpath hother
    obtain rfl := hact entry (hmem hsplit) own hown
    have hroot : path = [] := by
      simpa using under_dropLast hu hne
    subst hroot
    exact absurd (Option.some.inj hpath).symm hother
  · rintro before entry after t hsplit - path ⟨own, target, -, htarget, -⟩
    have htypes : ∀ entry ∈ plainArchive, ∀ target, entry.entryType ≠ .hardLink target := by
      simp [plainArchive]
    exact absurd htarget (htypes entry (hmem hsplit) target)

/-- An archive that passes the check makes a directory of a file. -/
theorem file_becomes_directory :
    Tree fileRootfs ∧
      checkArchiveDirNonDirConflicts fileRootfs nestedArchive = .ok () ∧
      ∃ fs', applyLayerTar listingHost fileRootfs nestedArchive = .ok fs' ∧
        ¬KindsKept fileRootfs fs' := by
  have hrun : (applyLayerTar listingHost fileRootfs nestedArchive).map (fun fs => fs [[97]]) =
      .ok (some .directory) := by
    decide +kernel
  obtain ⟨fs', h, hdirectory⟩ := Except.map_eq_ok.mp hrun
  refine ⟨tree_fileRootfs, by decide +kernel, fs', h, fun hkept => ?_⟩
  exact (hkept [[97]]).2 (.file [1]) rfl (by simp) hdirectory

end Ferrocrate.Rootfs
