import Ferrocrate.Rootfs.Extract

/-! What applying a layer archive leaves alone: everything that is not below `rootfs_dir`, unless
the fallback copy of a hard link goes through a link that leads outside. -/
namespace Ferrocrate.Rootfs.Machine
open Lib Lib.Program Lib.FileSystem

variable (host : Host) (top : Inode)
variable {S : Set Inode} {fs₀ fs : FileSystem} {path : Path} {name : Name}

/-- What is at the destination of `Entry::unpack` is replaced itself, and not followed. -/
def Host.Unpacks : Prop :=
  ∀ fs top path entryType, (host.unpack fs top path entryType).2 = fs ∨
    ∃ d name i, fs.lstat top path = .named d name i ∧
      ((host.unpack fs top path entryType).2 = fs.unlink (.named d name i) ∨
        ∃ content, ContentIn ∅ content ∧
          (host.unpack fs top path entryType).2 = (fs.unlink (.named d name i)).add d name content)

variable {host top}

theorem wp_checked {α : Type} (check : FileSystem → Except RootfsError α)
    (Q : α → FileSystem → Prop) (E : RootfsError → FileSystem → Prop) (fs : FileSystem) :
    wp (checked check) Q E fs ↔
      (∀ a, check fs = .ok a → Q a fs) ∧ ∀ e, check fs = .error e → E e fs := by
  rw [wp, checked]
  cases check fs with
  | ok a => simp
  | error e => simp

theorem ensureNoSymlinkComponents_noLinks (h : ensureNoSymlinkComponents top path fs = .ok ()) :
    fs.NoLinks top path.dropLast := by
  refine noLinks_of_prefixes fun q hq hne => ?_
  have hstep := Except.forM_eq_ok h q (mem_tail_inits.mpr ⟨hne, hq⟩)
  by_cases hlink : (fs.lstat top q).inode.any fs.isSymlink = true
  · rw [if_pos hlink] at hstep
    cases hstep
  · exact Bool.eq_false_iff.mpr hlink

theorem pathExists_iff : pathExists top fs path = true ↔ (fs.stat top path).inode ≠ none :=
  Option.isSome_iff_ne_none

/-! ## Making directories -/

theorem createDirAll_append_singleton :
    createDirAll top (path ++ [name])
      = (createDirAll top path >>= fun _ => mkdir top (path ++ [name])) := by
  have hone : ∀ q : Path, List.forM [q] (mkdir top) = mkdir top q := fun q => bind_pure _
  rw [createDirAll, createDirAll, List.inits_append]
  exact List.forM_append.trans (congrArg _ (funext fun _ => hone _))

theorem mkdir_cases (top : Inode) (fs : FileSystem) (path : Path) :
    (∃ d name, fs.lstat top path = .named d name none ∧
      mkdir top path fs = (.ok (), fs.add d name (.directory d fun _ => none))) ∨
    (∀ d name, fs.lstat top path ≠ .named d name none) ∧
      (mkdir top path fs = (.ok (), fs) ∨ ∃ e, mkdir top path fs = (.error e, fs)) := by
  unfold mkdir
  split
  next d name heq => exact .inl ⟨d, name, heq, rfl⟩
  next hnot =>
    refine .inr ⟨fun d name heq => hnot d name heq, ?_⟩
    split
    · exact .inl rfl
    · exact .inr ⟨_, rfl⟩

theorem wp_createDirAll (hfs : Sealed S fs₀ fs) (hmem : top ∈ S)
    (hpath : fs.NoLinks top path.dropLast) :
    wp (createDirAll top path)
      (fun _ fs' => Sealed S fs₀ fs' ∧ (fs' = fs ∨ fs'.EmptyAt top path) ∧
        ∀ q, fs.NoLinks top q → fs'.NoLinks top q)
      (fun _ => Sealed S fs₀) fs := by
  induction path using List.reverseRecOn with
  | nil =>
    have hone : createDirAll top [] = mkdir top [] := bind_pure _
    rw [hone]
    unfold wp
    obtain ⟨d, name, heq, -⟩ | ⟨-, hok | ⟨e, herr⟩⟩ := mkdir_cases top fs []
    · cases heq
    · rw [hok]
      exact ⟨hfs, .inl rfl, fun q hq => hq⟩
    · rw [herr]
      exact hfs
  | append_singleton path name ih =>
    rw [List.dropLast_concat] at hpath
    rw [createDirAll_append_singleton, wp_bind]
    refine wp_mono (ih hpath.dropLast) ?_ fun _ _ he => he
    intro _ fs' ⟨hsealed, hgrown, hkept⟩
    have hplain := hkept path hpath
    unfold wp
    obtain ⟨d, name', hfree, hok⟩ | ⟨hnot, hok | ⟨e, herr⟩⟩ :=
      mkdir_cases top fs' (path ++ [name])
    · rw [hok]
      obtain ⟨rfl, hd, hdir, hnone⟩ := lstat_free hplain hfree
      refine ⟨hsealed.add (hsealed.descend_mem hmem hd) (fun _ _ hi => nomatch hi), .inr ?_,
        fun q hq => (hkept q hq).add hdir⟩
      exact EmptyAt.add hdir hnone hd
    · rw [hok]
      refine ⟨hsealed, .inl ?_, hkept⟩
      cases hgrown with
      | inl hsame => exact hsame
      | inr hempty =>
        obtain ⟨d, hd⟩ := hempty.lstat hplain name
        exact absurd hd (hnot d name)
    · rw [herr]
      exact hsealed

/-! ## Removing -/

theorem sealed_removed (hfs : Sealed S fs₀ fs) (hmem : top ∈ S) (hpath : fs.NoLinks top path) :
    Sealed S fs₀ (removed top (path ++ [name]) fs) := by
  rw [removed]
  split
  · exact hfs.unlink (hfs.lstat_in hmem hpath)
  · exact hfs

theorem noLinks_removed {q r : Path} (h : fs.NoLinks top q) : (removed top r fs).NoLinks top q := by
  rw [removed]
  split
  · exact h.unlink
  · exact h

theorem wp_clearDirectory (hfs : Sealed S fs₀ fs) (hmem : top ∈ S) (hpath : fs.NoLinks top path) :
    wp (clearDirectory host top path) (fun _ => Sealed S fs₀) (fun _ => Sealed S fs₀) fs := by
  have hloop : ∀ names : List Name,
      wp (names.forM fun name => removePathIfExists top (path ++ [name]))
        (fun _ => Sealed S fs₀) (fun _ => Sealed S fs₀) fs := by
    intro names
    have hall : wp (names.forM fun name => removePathIfExists top (path ++ [name]))
        (fun _ fs => Sealed S fs₀ fs ∧ fs.NoLinks top path) (fun _ => Sealed S fs₀) fs :=
      wp_forM (fun name _ s hs => ⟨sealed_removed hs.1 hmem hs.2, noLinks_removed hs.2⟩)
        ⟨hfs, hpath⟩
    exact wp_mono hall (fun _ _ h => h.1) fun _ _ h => h
  rw [clearDirectory, wp_bind, wp_get, wp_ite]
  refine ⟨fun _ => ?_, fun _ => hfs⟩
  split
  · rw [wp_ite]
    exact ⟨fun _ => hloop _, fun _ => hfs⟩
  · exact hfs

/-! ## Hard links -/

theorem removed_cases (name : Name) (hpath : fs.NoLinks top path) :
    (removed top (path ++ [name]) fs).stat top (path ++ [name])
        = (removed top (path ++ [name]) fs).lstat top (path ++ [name]) ∨
      removed top (path ++ [name]) fs = fs ∧ (fs.stat top (path ++ [name])).inode = none := by
  by_cases hexists : pathExists top fs (path ++ [name]) = true
  · left
    refine stat_of_noLinks (noLinks_removed hpath) fun i hi => ?_
    rw [removed, if_pos hexists, lstat_unlink_lstat hpath] at hi
    cases hi
  · refine .inr ⟨if_neg hexists, ?_⟩
    by_contra hne
    exact hexists (pathExists_iff.mpr hne)

def CopiesInto (top : Inode) (S : Set Inode) (fs : FileSystem) (target : Option Bytes)
    (destination : Path) : Prop :=
  ∀ link linkTarget d name, target = some link → sanitizeArchivePath link = .ok linkTarget →
    ensureNoSymlinkComponents top linkTarget fs = .ok () →
    ((fs.stat top linkTarget).inode.bind fs.fileBytes).isSome = true →
    fs.stat top destination = .named d name none → d ∈ S

theorem lstat_in_of_ensured (hfs : Sealed S fs₀ fs) (hmem : top ∈ S)
    (hpath : fs.NoLinks top path.dropLast) : Resolved.In S (fs.lstat top path) := by
  induction path using List.reverseRecOn with
  | nil => exact hmem
  | append_singleton path name =>
    rw [List.dropLast_concat] at hpath
    exact hfs.lstat_in hmem hpath

theorem wp_applyHardLinkEntry {target : Option Bytes} (hfs : Sealed S fs₀ fs) (hmem : top ∈ S)
    (hpath : fs.NoLinks top path)
    (hsafe : (fs.lstat top (path ++ [name])).inode = none ∨
      CopiesInto top S fs target (path ++ [name])) :
    wp (applyHardLinkEntry host top target (path ++ [name]))
      (fun _ => Sealed S fs₀) (fun _ => Sealed S fs₀) fs := by
  unfold applyHardLinkEntry
  cases target with
  | none => exact hfs
  | some link =>
    rw [wp_bind, wp_checked]
    refine ⟨fun linkTarget hlink => ?_, fun _ _ => hfs⟩
    rw [wp_bind, wp_checked]
    refine ⟨fun _ hensured => ?_, fun _ _ => hfs⟩
    rw [wp_bind, removePathIfExists, wp_modify, wp_bind, wp_get]
    have hremoved : Sealed S fs₀ (removed top (path ++ [name]) fs) :=
      sealed_removed hfs hmem hpath
    have hplain : (removed top (path ++ [name]) fs).NoLinks top path := noLinks_removed hpath
    have hsource : Resolved.In S ((removed top (path ++ [name]) fs).lstat top linkTarget) :=
      lstat_in_of_ensured hremoved hmem
        (noLinks_removed (ensureNoSymlinkComponents_noLinks hensured))
    have htarget : Resolved.In S
        ((removed top (path ++ [name]) fs).lstat top (path ++ [name])) :=
      hremoved.lstat_in hmem hplain
    split
    next fs' hlinked =>
      rw [wp_set]
      unfold hardLink at hlinked
      split at hlinked
      · cases hlinked
      · exact hremoved.hardLink hsource htarget hlinked
    next =>
      split
      next fs' hcopied =>
        rw [wp_set]
        refine hremoved.copy ?_ hcopied
        obtain hsame | ⟨hsame, hnone⟩ := removed_cases name hpath
        · rw [hsame]
          exact htarget
        · rw [hsame] at hcopied htarget ⊢
          cases hsafe with
          | inl hfree =>
            rw [stat_of_noLinks hpath fun i hi => nomatch hfree.symm.trans hi]
            exact htarget
          | inr hinto =>
            have hregular := copy_source hcopied
            cases hstat : fs.stat top (path ++ [name]) with
            | named d n i =>
              rw [hstat] at hnone
              obtain rfl : i = none := hnone
              exact ⟨hinto link linkTarget d n rfl hlink hensured hregular hstat,
                fun j hj => nomatch hj⟩
            | self d =>
              rw [hstat] at hnone
              cases hnone
            | failed => trivial
      next => exact hremoved

/-! ## One entry -/

/-- The entry is a hard link to a regular file, and its destination leads by links to the free name
of a directory that is not in the set. -/
structure Leaks (top : Inode) (S : Set Inode) (fs : FileSystem) (entry : Entry)
    (link : Bytes) (normalized linkTarget : Path) (d : Inode) (name : Name) : Prop where
  entryType : entry.entryType = .hardLink (some link)
  sanitized : sanitizeArchivePath entry.path = .ok normalized
  nonempty : normalized ≠ []
  notOpaque : fileName normalized ≠ ociOpaqueWhiteout
  notWhiteout : whiteoutTargetName (fileName normalized) = .ok none
  ensured : ensureNoSymlinkComponents top normalized fs = .ok ()
  targetSanitized : sanitizeArchivePath link = .ok linkTarget
  targetEnsured : ensureNoSymlinkComponents top linkTarget fs = .ok ()
  regular : ((fs.stat top linkTarget).inode.bind fs.fileBytes).isSome = true
  dangling : fs.stat top normalized = .named d name none
  leaves : d ∉ S

def Leaking (top : Inode) (S : Set Inode) (fs : FileSystem) (entry : Entry) : Prop :=
  ∃ link normalized linkTarget d name, Leaks top S fs entry link normalized linkTarget d name

theorem sealed_unpack (hunpack : host.Unpacks) {entryType : EntryType} (hfs : Sealed S fs₀ fs)
    (hmem : top ∈ S) (hpath : fs.NoLinks top path) :
    Sealed S fs₀ (host.unpack fs top (path ++ [name]) entryType).2 := by
  obtain hsame | ⟨d, n, i, hlstat, hresult⟩ := hunpack fs top (path ++ [name]) entryType
  · rw [hsame]
    exact hfs
  · have hin : Resolved.In S (fs.lstat top (path ++ [name])) := hfs.lstat_in hmem hpath
    rw [hlstat] at hin
    obtain hremoved | ⟨content, hcontent, hadded⟩ := hresult
    · rw [hremoved]
      exact hfs.unlink hin
    · rw [hadded]
      refine (hfs.unlink hin).add hin.1 ?_
      cases content with
      | directory parent entries =>
        exact fun m j hj => absurd (hcontent m j hj) (Set.notMem_empty j)
      | file bytes => trivial
      | symlink target => trivial

theorem wp_unpack (hunpack : host.Unpacks) {entryType : EntryType} (hfs : Sealed S fs₀ fs)
    (hmem : top ∈ S) (hpath : fs.NoLinks top path) :
    wp (unpack host top (path ++ [name]) entryType)
      (fun _ => Sealed S fs₀) (fun _ => Sealed S fs₀) fs := by
  have hsealed : Sealed S fs₀ (host.unpack fs top (path ++ [name]) entryType).2 :=
    sealed_unpack hunpack hfs hmem hpath
  unfold wp unpack
  cases hresult : host.unpack fs top (path ++ [name]) entryType with
  | mk result fs' =>
    rw [hresult] at hsealed
    cases result <;> exact hsealed

variable {entry : Entry}

theorem wp_applyEntry (hunpack : host.Unpacks) (hfs : Sealed S fs₀ fs)
    (hmem : top ∈ S) (hleak : ¬ Leaking top S fs entry) :
    wp (applyEntry host top entry) (fun _ => Sealed S fs₀) (fun _ => Sealed S fs₀) fs := by
  rw [applyEntry, wp_bind, wp_checked]
  refine ⟨fun normalized hsanitized => ?_, fun _ _ => hfs⟩
  rw [wp_ite]
  refine ⟨fun hopaque => ?_, fun hopaque => ?_⟩
  · rw [wp_bind, wp_checked]
    refine ⟨fun _ hensured => ?_, fun _ _ => hfs⟩
    exact wp_clearDirectory hfs hmem (ensureNoSymlinkComponents_noLinks hensured)
  rw [wp_bind, wp_checked]
  refine ⟨fun target hwhiteout => ?_, fun _ _ => hfs⟩
  cases target with
  | some targetName =>
    rw [wp_bind, wp_checked]
    refine ⟨fun _ hensured => ?_, fun _ _ => hfs⟩
    rw [removePathIfExists, wp_modify]
    exact sealed_removed hfs hmem (ensureNoSymlinkComponents_noLinks hensured)
  | none =>
    rw [wp_ite]
    refine ⟨fun hdirectory => ?_, fun hdirectory => ?_⟩
    · rw [wp_bind, wp_checked]
      refine ⟨fun _ hensured => ?_, fun _ _ => hfs⟩
      exact wp_mono (wp_createDirAll hfs hmem (ensureNoSymlinkComponents_noLinks hensured))
        (fun _ _ h => h.1) fun _ _ h => h
    · rw [wp_ite]
      refine ⟨fun _ => hfs, fun hne => ?_⟩
      rw [wp_bind, wp_checked]
      refine ⟨fun _ hensured => ?_, fun _ _ => hfs⟩
      have hplain := ensureNoSymlinkComponents_noLinks hensured
      have hsplit : normalized = normalized.dropLast ++ [normalized.getLast hne] :=
        (List.dropLast_append_getLast hne).symm
      rw [wp_bind]
      refine wp_mono (wp_createDirAll hfs hmem hplain.dropLast) ?_ fun _ _ h => h
      intro _ fs' ⟨hsealed, hgrown, hkept⟩
      have hparent := hkept _ hplain
      cases htype : entry.entryType with
      | directory => exact absurd htype hdirectory
      | unpacked kind link content =>
        dsimp only
        rw [hsplit]
        exact wp_unpack hunpack hsealed hmem hparent
      | hardLink target =>
        dsimp only
        have hsafe : (fs'.lstat top normalized).inode = none ∨
            CopiesInto top S fs' target normalized := by
          cases hgrown with
          | inl hsame =>
            right
            intro link linkTarget d name htarget hlink htargetEnsured hregular hstat
            by_contra hleaves
            rw [hsame] at htargetEnsured hregular hstat
            exact hleak ⟨link, normalized, linkTarget, d, name, {
              entryType := by rw [htype, htarget]
              sanitized := hsanitized
              nonempty := hne
              notOpaque := hopaque
              notWhiteout := hwhiteout
              ensured := hensured
              targetSanitized := hlink
              targetEnsured := htargetEnsured
              regular := hregular
              dangling := hstat
              leaves := hleaves }⟩
          | inr hempty =>
            left
            obtain ⟨d, hd⟩ := hempty.lstat hparent (normalized.getLast hne)
            rw [← hsplit] at hd
            rw [hd]
            rfl
        rw [hsplit] at hsafe ⊢
        exact wp_applyHardLinkEntry hsealed hmem hparent hsafe

/-! ## The entry that leaks -/

theorem createDirAll_existing {d : Inode} (hpath : fs.NoLinks top path)
    (hd : fs.descend top path = some d) (hdir : fs.isDirectory d = true) :
    createDirAll top path fs = (.ok (), fs) := by
  have hmkdir : ∀ q, isDir top fs q = true → (∀ d name, fs.lstat top q ≠ .named d name none) →
      mkdir top q fs = (.ok (), fs) := by
    intro q hq hnot
    unfold mkdir
    split
    next d name heq => exact absurd heq (hnot d name)
    next => exact if_pos hq
  induction path using List.reverseRecOn generalizing d with
  | nil =>
    have hone : createDirAll top [] = mkdir top [] := bind_pure _
    rw [hone]
    refine hmkdir [] ?_ fun _ _ heq => nomatch heq
    obtain rfl := Option.some.inj hd
    exact hdir
  | append_singleton path name ih =>
    obtain ⟨e, he, hed⟩ := descend_append_singleton hd
    have hplain := noLinks_of_append hpath
    have hlstat : fs.lstat top (path ++ [name]) = .named e name (some d) := by
      rw [lstat_of_noLinks hplain, he]
      dsimp only
      rw [hed]
    have hstat : fs.stat top (path ++ [name]) = .named e name (some d) := by
      rw [← hlstat]
      refine stat_of_noLinks hplain fun i hi => ?_
      rw [hlstat] at hi
      obtain rfl := Option.some.inj hi
      exact not_isSymlink_of_isDirectory hdir
    have hedir : fs.isDirectory e = true := by
      by_contra hnot
      rw [entry_of_not_isDirectory (Bool.eq_false_iff.mpr hnot)] at hed
      cases hed
    have hthere : isDir top fs (path ++ [name]) = true := by
      rw [isDir, hstat]
      exact hdir
    rw [createDirAll_append_singleton]
    refine bind_eq_ok.mpr ⟨(), fs, ih hplain he hedir, hmkdir _ hthere fun _ _ heq => ?_⟩
    rw [hlstat] at heq
    cases heq

theorem applyEntry_leaks {link : Bytes} {normalized linkTarget : Path} {d : Inode}
    (hfs : Sealed S fs₀ fs) (hmem : top ∈ S)
    (h : Leaks top S fs entry link normalized linkTarget d name) :
    ∃ bytes, applyEntry host top entry fs = (.ok (), fs.add d name (.file bytes)) := by
  have hplain := ensureNoSymlinkComponents_noLinks h.ensured
  have hsplit : normalized.dropLast ++ [normalized.getLast h.nonempty] = normalized :=
    List.dropLast_append_getLast h.nonempty
  -- the destination is a link itself, so its parent is there
  have hnamed : ∃ e n i, fs.lstat top normalized = .named e n (some i) ∧
      fs.descend top normalized.dropLast = some e ∧ fs.isDirectory e = true := by
    have hout : (fs.lstat top normalized).inode ≠ none := by
      intro hnone
      have hsame : fs.stat top normalized = fs.lstat top normalized := by
        rw [← hsplit] at hnone ⊢
        exact stat_of_noLinks hplain fun i hi => nomatch hnone.symm.trans hi
      have hin : Resolved.In S (fs.lstat top normalized) := lstat_in_of_ensured hfs hmem hplain
      rw [← hsame, h.dangling] at hin
      exact h.leaves hin.1
    obtain ⟨e, he, hdir, hlstat⟩ | hfailed := lstat_cases (normalized.getLast h.nonempty) hplain
    · rw [hsplit] at hlstat
      rw [hlstat] at hout
      obtain ⟨i, hi⟩ := Option.ne_none_iff_exists'.mp hout
      exact ⟨e, _, i, hlstat.trans (congrArg _ hi), he, hdir⟩
    · rw [hsplit] at hfailed
      rw [hfailed] at hout
      exact absurd rfl hout
  obtain ⟨e, n, i, hlstat, hparent, hdir⟩ := hnamed
  have hkept : removed top normalized fs = fs := by
    refine if_neg fun hexists => pathExists_iff.mp hexists ?_
    rw [h.dangling]
    rfl
  have hnolink : hardLink host (fs.lstat top linkTarget) (fs.lstat top normalized) fs = none := by
    rw [hardLink, hlstat, hardLink_taken, ite_self]
  obtain ⟨bytes, hcopy⟩ : ∃ bytes, fs.copy _ (.named d name none) = _ := copy_free h.regular
  rw [← h.dangling] at hcopy
  have hlink : applyHardLinkEntry host top (some link) normalized fs
      = (.ok (), fs.add d name (.file bytes)) := by
    unfold applyHardLinkEntry
    refine bind_eq_ok.mpr ⟨linkTarget, fs, congrArg (·, fs) h.targetSanitized, ?_⟩
    refine bind_eq_ok.mpr ⟨(), fs, congrArg (·, fs) h.targetEnsured, ?_⟩
    refine bind_eq_ok.mpr ⟨(), fs, congrArg (Except.ok (), ·) hkept, ?_⟩
    refine bind_eq_ok.mpr ⟨fs, fs, rfl, ?_⟩
    rw [hnolink]
    dsimp only
    rw [hcopy]
    rfl
  refine ⟨bytes, ?_⟩
  unfold applyEntry
  refine bind_eq_ok.mpr ⟨normalized, fs, congrArg (·, fs) h.sanitized, ?_⟩
  rw [if_neg h.notOpaque]
  refine bind_eq_ok.mpr ⟨none, fs, congrArg (·, fs) h.notWhiteout, ?_⟩
  dsimp only
  rw [h.entryType, if_neg (fun heq => nomatch heq), if_neg h.nonempty]
  refine bind_eq_ok.mpr ⟨(), fs, congrArg (·, fs) h.ensured, ?_⟩
  exact bind_eq_ok.mpr ⟨(), fs, createDirAll_existing hplain hparent hdir, hlink⟩

/-! ## The whole archive -/

def Contained (host : Host) (top : Inode) (S : Set Inode) : FileSystem → List Entry → Prop
  | _, [] => True
  | fs, entry :: entries => ¬ Leaking top S fs entry ∧
    ∀ fs', applyEntry host top entry fs = (.ok (), fs') → Contained host top S fs' entries

variable {entries : List Entry}

theorem applyLayerTar_cons :
    applyLayerTar host top (entry :: entries)
      = (applyEntry host top entry >>= fun _ => applyLayerTar host top entries) := rfl

theorem run_of_wp {α : Type} {m : Extraction α} {P : FileSystem → Prop}
    (h : wp m (fun _ => P) (fun _ => P) fs) : P (m fs).2 := by
  unfold wp at h
  split at h
  next heq => rwa [heq]
  next heq => rwa [heq]

theorem bind_snd (m k : Extraction Unit) (fs : FileSystem) :
    (∃ fs', m fs = (.ok (), fs') ∧ ((m >>= fun _ => k) fs).2 = (k fs').2) ∨
      (∃ e fs', m fs = (.error e, fs') ∧ ((m >>= fun _ => k) fs).2 = fs') := by
  simp only [bind, ExceptT.bind, ExceptT.mk, StateT.bind, ExceptT.bindCont]
  cases h : m fs with
  | mk result fs' =>
    cases result with
    | ok => exact .inl ⟨fs', rfl, rfl⟩
    | error e => exact .inr ⟨e, fs', rfl, rfl⟩

theorem applyLayerTar_keeps_entry (hunpack : host.Unpacks) {d i : Inode}
    (hfs : Sealed S fs fs) (hmem : top ∈ S) (hd : d ∉ S) (hi : fs.entry d name = some i) :
    (applyLayerTar host top entries fs).2.entry d name = some i := by
  induction entries generalizing fs with
  | nil => exact hi
  | cons entry entries ih =>
    have hstep : ∀ fs', (applyEntry host top entry fs).2 = fs' →
        Sealed S fs' fs' ∧ fs'.entry d name = some i := by
      rintro fs' rfl
      by_cases hleak : Leaking top S fs entry
      · obtain ⟨link, normalized, linkTarget, e, n, h⟩ := hleak
        obtain ⟨bytes, hstep⟩ := applyEntry_leaks hfs hmem h
        rw [hstep]
        refine ⟨hfs.add_outside h.leaves, ?_⟩
        obtain ⟨hdir, hfree⟩ := resolve_free h.dangling
        have hnext : d ≠ fs.next := fun heq => hd (heq ▸ hfs.next_mem)
        rw [entry_add hdir hnext, if_neg, hi]
        rintro ⟨rfl, rfl⟩
        cases hfree.symm.trans hi
      · have hsealed := run_of_wp (wp_applyEntry hunpack hfs hmem hleak)
        exact ⟨hsealed.self, (hsealed.entry_eq hd name).trans hi⟩
    rw [applyLayerTar_cons]
    obtain ⟨fs', hok, hrest⟩ | ⟨e, fs', herr, hrest⟩ :=
      bind_snd (applyEntry host top entry) (applyLayerTar host top entries) fs
    · obtain ⟨hsealed, hkept⟩ := hstep fs' (congrArg Prod.snd hok)
      rw [hrest]
      exact ih hsealed hkept
    · rw [hrest]
      exact (hstep fs' (congrArg Prod.snd herr)).2

theorem applyLayerTar_sealed (hunpack : host.Unpacks)
    (hfs : Sealed S fs₀ fs) (hmem : top ∈ S) (h : Contained host top S fs entries) :
    Sealed S fs₀ (applyLayerTar host top entries fs).2 := by
  induction entries generalizing fs with
  | nil => exact hfs
  | cons entry entries ih =>
    have hstep := run_of_wp (wp_applyEntry hunpack hfs hmem h.1)
    rw [applyLayerTar_cons]
    obtain ⟨fs', hok, hrest⟩ | ⟨e, fs', herr, hrest⟩ :=
      bind_snd (applyEntry host top entry) (applyLayerTar host top entries) fs
    · rw [hok] at hstep
      rw [hrest]
      exact ih hstep (h.2 fs' hok)
    · rw [herr] at hstep
      rw [hrest]
      exact hstep

theorem applyLayerTar_leaks (hunpack : host.Unpacks)
    (hfs : Sealed S fs fs) (hmem : top ∈ S) (h : ¬ Contained host top S fs entries) :
    ∃ d name, d ∉ S ∧ (applyLayerTar host top entries fs).2.entry d name ≠ fs.entry d name := by
  induction entries generalizing fs with
  | nil => exact absurd trivial h
  | cons entry entries ih =>
    by_cases hleak : Leaking top S fs entry
    · obtain ⟨link, normalized, linkTarget, d, name, hleaks⟩ := hleak
      obtain ⟨bytes, hstep⟩ := applyEntry_leaks hfs hmem hleaks
      obtain ⟨hdir, hfree⟩ := resolve_free hleaks.dangling
      have hnext : d ≠ fs.next := fun heq => hleaks.leaves (heq ▸ hfs.next_mem)
      have hadded : (fs.add d name (.file bytes)).entry d name = some fs.next := by
        rw [entry_add hdir hnext, if_pos ⟨rfl, rfl⟩]
      refine ⟨d, name, hleaks.leaves, ?_⟩
      rw [applyLayerTar_cons]
      obtain ⟨fs', hok, hrest⟩ | ⟨e, fs', herr, hrest⟩ :=
        bind_snd (applyEntry host top entry) (applyLayerTar host top entries) fs
      · obtain rfl : fs.add d name (.file bytes) = fs' := congrArg Prod.snd (hstep.symm.trans hok)
        rw [hrest, hfree, applyLayerTar_keeps_entry hunpack (hfs.add_outside hleaks.leaves) hmem
          hleaks.leaves hadded]
        exact Option.some_ne_none _
      · cases congrArg Prod.fst (hstep.symm.trans herr)
    · have hsealed := run_of_wp (wp_applyEntry hunpack hfs hmem hleak)
      have hrest : ∃ fs', applyEntry host top entry fs = (.ok (), fs') ∧
          ¬ Contained host top S fs' entries := by
        by_contra hnone
        refine h ⟨hleak, fun fs' hok => ?_⟩
        by_contra hnot
        exact hnone ⟨fs', hok, hnot⟩
      obtain ⟨fs', hok, hnot⟩ := hrest
      rw [hok] at hsealed
      obtain ⟨d, name, hd, hne⟩ := ih hsealed.self hnot
      refine ⟨d, name, hd, ?_⟩
      rw [applyLayerTar_cons]
      obtain ⟨fs'', hok', hresult⟩ | ⟨e, fs'', herr, -⟩ :=
        bind_snd (applyEntry host top entry) (applyLayerTar host top entries) fs
      · obtain rfl : fs' = fs'' := congrArg Prod.snd (hok.symm.trans hok')
        rw [hresult, ← hsealed.entry_eq hd name]
        exact hne
      · cases congrArg Prod.fst (hok.symm.trans herr)

def Untouched (top : Inode) (fs₀ fs : FileSystem) : Prop :=
  ∀ i ∈ fs₀.outside top, fs.node i = fs₀.node i

theorem Untouched.of_sealed (h : Sealed (fs₀.outside top)ᶜ fs₀ fs) : Untouched top fs₀ fs :=
  fun i hi => h.same i fun hnot => hnot hi

theorem applyLayerTar_untouched_iff (hunpack : host.Unpacks)
    (hfs : Sealed (fs₀.outside top)ᶜ fs₀ fs) :
    Untouched top fs₀ (applyLayerTar host top entries fs).2 ↔
      Contained host top (fs₀.outside top)ᶜ fs entries := by
  have hmem := top_mem_compl_outside fs₀ top
  constructor
  · intro h
    by_contra hnot
    obtain ⟨d, name, hd, hne⟩ := applyLayerTar_leaks hunpack hfs.self hmem hnot
    refine hne ?_
    rw [hfs.entry_eq hd, entry, entry, h d (Set.notMem_compl_iff.mp hd)]
  · exact fun h => .of_sealed (applyLayerTar_sealed hunpack hfs hmem h)

theorem constructRootfs_eq (layers : List (List Entry)) :
    constructRootfs host top layers = applyLayerTar host top layers.flatten := by
  induction layers with
  | nil => rfl
  | cons layer layers ih =>
    have happend : applyLayerTar host top (layer ++ layers.flatten)
        = (applyLayerTar host top layer >>= fun _ => applyLayerTar host top layers.flatten) :=
      List.forM_append
    rw [List.flatten_cons, happend, ← ih]
    rfl

theorem wp_replaceConflict (hfs : Sealed S fs₀ fs) (hmem : top ∈ S) :
    wp (replaceConflict top entry) (fun _ => Sealed S fs₀) (fun _ => Sealed S fs₀) fs := by
  rw [replaceConflict, wp_bind, wp_checked]
  refine ⟨fun normalized _ => ?_, fun _ _ => hfs⟩
  rw [wp_bind, wp_get]
  split
  · exact hfs
  · rw [wp_ite]
    refine ⟨fun _ => hfs, fun _ => ?_⟩
    rw [wp_bind, wp_checked]
    refine ⟨fun _ hensured => ?_, fun _ _ => hfs⟩
    exact hfs.unlink (lstat_in_of_ensured hfs hmem (ensureNoSymlinkComponents_noLinks hensured))

/-- Layer extraction leaves everything that is not below `rootfs_dir` as it was, exactly when no
hard link entry is copied through a link that leads outside. -/
theorem extraction_contained_iff (hunpack : host.Unpacks) (fs₀ : FileSystem) (top : Inode) :
    (∀ entries, Untouched top fs₀ (applyLayerTar host top entries fs₀).2 ↔
      Contained host top (fs₀.outside top)ᶜ fs₀ entries) ∧
    (∀ layers, Untouched top fs₀ (constructRootfs host top layers fs₀).2 ↔
      Contained host top (fs₀.outside top)ᶜ fs₀ layers.flatten) ∧
    ∀ entries, Untouched top fs₀ (applyContainerArchiveWithReplace host top entries fs₀).2 ↔
      ∀ fs, entries.forM (replaceConflict top) fs₀ = (.ok (), fs) →
        Contained host top (fs₀.outside top)ᶜ fs entries := by
  have hfs₀ := sealed_compl_outside fs₀ top
  have hmem := top_mem_compl_outside fs₀ top
  refine ⟨fun entries => applyLayerTar_untouched_iff hunpack hfs₀, fun layers => ?_,
    fun entries => ?_⟩
  · rw [constructRootfs_eq]
    exact applyLayerTar_untouched_iff hunpack hfs₀
  · have hall : wp (entries.forM (replaceConflict top)) (fun _ => Sealed _ fs₀)
        (fun _ => Sealed _ fs₀) fs₀ :=
      wp_forM (fun _ _ _ hs => wp_replaceConflict hs hmem) hfs₀
    have hreplaced := run_of_wp hall
    rw [applyContainerArchiveWithReplace]
    obtain ⟨fs', hok, hrest⟩ | ⟨e, fs', herr, hrest⟩ :=
      bind_snd (entries.forM (replaceConflict top)) (applyLayerTar host top entries) fs₀
    · rw [hok] at hreplaced
      rw [hrest, applyLayerTar_untouched_iff hunpack hreplaced]
      constructor
      · intro h fs hfs
        obtain rfl : fs' = fs := congrArg Prod.snd (hok.symm.trans hfs)
        exact h
      · exact fun h => h fs' hok
    · rw [herr] at hreplaced
      rw [hrest]
      refine iff_of_true (.of_sealed hreplaced) fun fs hfs => ?_
      cases congrArg Prod.fst (herr.symm.trans hfs)

/-! ## A link to a free name outside -/

def plainHost : Host where
  readDir _ _ := []
  refuses _ _ _ := false
  unpack fs top path entryType :=
    match entryType, fs.lstat top path with
    | .unpacked kind link content, .named d name i =>
      if i.any fs.isDirectory then (.error (.other "is a directory"), fs)
      else (.ok (), (fs.unlink (.named d name i)).add d name
        (if kind = 50 then .symlink link else .file content))
    | _, _ => (.error (.other "not found"), fs)

theorem plainHost_unpacks : plainHost.Unpacks := by
  intro fs top path entryType
  simp only [plainHost]
  split
  next kind link content d name i hlstat =>
    split
    · exact .inl rfl
    · refine .inr ⟨d, name, i, hlstat, .inr ⟨_, ?_, rfl⟩⟩
      split <;> trivial
  next => exact .inl rfl

def emptyMachine : FileSystem where
  node i := match i with
    | 0 => some (.directory 0 fun name =>
        if name = [114, 111, 111, 116, 102, 115] then some 1
        else if name = [111, 117, 116, 115, 105, 100, 101] then some 2 else none)
    | 1 => some (.directory 0 fun _ => none)
    | 2 => some (.directory 0 fun _ => none)
    | _ => none
  root := 0
  next := 3
  fresh i hi := by
    match i, hi with
    | i + 3, _ => rfl

def plainEntry : Entry := ⟨[97], .unpacked 48 [] [1]⟩

def escapingEntries : List Entry :=
  [⟨[108], .unpacked 50 [47, 111, 117, 116, 115, 105, 100, 101, 47, 110, 101, 119] []⟩, plainEntry,
    ⟨[108], .hardLink (some [97])⟩]

theorem reaches_emptyMachine {i : Inode} (h : emptyMachine.Reaches 1 i) : i = 1 := by
  induction h with
  | refl => rfl
  | entry _ hi ih =>
    rw [ih] at hi
    cases hi

theorem outside_emptyMachine : 2 ∈ emptyMachine.outside 1 :=
  ⟨Option.some_ne_none _, fun h => absurd (reaches_emptyMachine h) (by decide)⟩

/-- The hard link makes `/outside/new`. -/
theorem hard_link_escapes :
    plainHost.Unpacks ∧ emptyMachine.isDirectory 1 = true ∧
    (applyLayerTar plainHost 1 escapingEntries emptyMachine).1 = .ok () ∧
    ¬ Untouched 1 emptyMachine (applyLayerTar plainHost 1 escapingEntries emptyMachine).2 := by
  refine ⟨plainHost_unpacks, rfl, by decide +kernel, fun h => ?_⟩
  have hnode := h 2 outside_emptyMachine
  have hnew : ((applyLayerTar plainHost 1 escapingEntries emptyMachine).2.entry 2
      [110, 101, 119]).isSome = true := by decide +kernel
  rw [entry, hnode] at hnew
  cases hnew

/-- The hard link has a name of its own beside the link. -/
def besideEntries : List Entry := escapingEntries.take 2 ++ [⟨[109], .hardLink (some [97])⟩]

theorem file_contained :
    Untouched 1 emptyMachine (applyLayerTar plainHost 1 besideEntries emptyMachine).2 := by
  refine ((extraction_contained_iff plainHost_unpacks emptyMachine 1).1 besideEntries).mpr ?_
  refine ⟨fun ⟨_, _, _, _, _, h⟩ => (nomatch h.entryType), fun fs hfs =>
    ⟨fun ⟨_, _, _, _, _, h⟩ => (nomatch h.entryType), fun fs' hfs' => ⟨?_, fun _ _ => trivial⟩⟩⟩
  rintro ⟨link, normalized, linkTarget, d, name, h⟩
  obtain rfl : _ = fs := congrArg Prod.snd hfs
  obtain rfl : _ = fs' := congrArg Prod.snd hfs'
  obtain rfl : [[109]] = normalized := Except.ok.inj (Eq.trans (by decide +kernel) h.sanitized)
  have hat : Resolved.named 1 [109] none = .named d name none := Eq.trans (by rfl) h.dangling
  obtain rfl : 1 = d := (Resolved.named.inj hat).1
  exact h.leaves (top_mem_compl_outside emptyMachine 1)

end Ferrocrate.Rootfs.Machine
