import Ferrocrate.Lib.PathTree
import Ferrocrate.Rootfs.Snapshot

/-! A layer applied to the stage root it was taken from: `dockerfile_build.rs`, `rootfs.rs`.

The extractor asks whether a whited-out path exists before it removes it. The question
follows symbolic links, so a link that leads nowhere is left in place. -/
namespace Ferrocrate.Rootfs
open Lib Lib.PathTree
open scoped Lib.Path

variable {host : Host} {before after : Stage}

/-- What the archive library promises of `unpack` for files and symbolic links: whatever is
at the destination is replaced, unless it is a directory, and nothing else is touched. -/
structure Host.Unpacks (host : Host) : Prop where
  replaces : ∀ (fs : Fs) (path : Path) (content : Content), content ≠ .directory →
    fs path.dropLast = some .directory → fs path ≠ some .directory →
    host.unpack fs path content.entryType = .ok (fs.set path content)
  elsewhere : ∀ (fs fs' : Fs) (path : Path) (content : Content),
    host.unpack fs path content.entryType = .ok fs' → ∀ q, ¬ path <+: q → fs' q = fs q

def Stage.Plain (stage : Stage) : Prop :=
  ∀ p node, stage.nodes.get p = some node → ∀ name ∈ p, ¬ ociWhiteoutPrefix <+: name

def ChangesSeen (before after : Stage) : Prop :=
  ∀ p old new, before.nodes.get p = some old → after.nodes.get p = some new →
    old.content ≠ new.content → old.state ≠ new.state

def Utf8Named (path : Path) : Prop :=
  Path.toStringLossy (path.getLast?.getD []) = path.getLast?.getD []

instance (path : Path) : Decidable (Utf8Named path) :=
  inferInstanceAs (Decidable (_ = _))

/-- Every whited-out path has a UTF-8 name and exists, links followed, when its whiteout is
applied; where a link makes way for something else than a directory it need not exist. -/
structure WhiteoutsReach (host : Host) (before after : Stage) : Prop where
  deleted : ∀ r ∈ deletions before after, Utf8Named r ∧
    pathExists host (cleared before.fs ((deletions before after).filter (· < r))) r = true
  changed : ∀ e ∈ after.nodes.entries,
    kindChanged ((snapshotStageRoot before).get e.1) e.2.state = true → Utf8Named e.1 ∧
      (e.2.content = .directory → pathExists host
        (rebuilt before.fs after.fs (after.nodes.keys.filter (· < e.1))) e.1 = true)

namespace Stage

variable {stage : Stage} {q : Path}

theorem fs_of_ne_nil (h : q ≠ []) :
    stage.fs q = (stage.nodes.get q).map Node.content := if_neg h

theorem exists_node (h : stage.fs q ≠ none) (hq : q ≠ []) :
    ∃ node, stage.nodes.get q = some node := by
  rw [fs_of_ne_nil hq] at h
  exact Option.ne_none_iff_exists'.mp fun hnone => h (by rw [hnone]; rfl)

theorem ne_nil_of_mem_keys (h : q ∈ stage.nodes.keys) : q ≠ [] := by
  obtain ⟨node, hnode⟩ := Option.ne_none_iff_exists'.mp (stage.nodes.mem_keys_iff.mp h)
  exact (stage.names q node hnode).1

theorem mem_keys_iff :
    q ∈ stage.nodes.keys ↔ q ≠ [] ∧ stage.fs q ≠ none := by
  constructor
  · intro h
    have hne := ne_nil_of_mem_keys h
    refine ⟨hne, ?_⟩
    rw [fs_of_ne_nil hne]
    simpa using stage.nodes.mem_keys_iff.mp h
  · intro h
    obtain ⟨node, hnode⟩ := exists_node h.2 h.1
    exact stage.nodes.mem_keys_iff.mpr fun hnone => by simp [hnode] at hnone

theorem keys_sorted (stage : Stage) : stage.nodes.keys.Pairwise (· < ·) :=
  List.pairwise_map.mpr stage.nodes.sorted

theorem isTree (stage : Stage) : IsTree .directory stage.fs where
  root := rfl
  parents p name h := by
    obtain ⟨node, hnode⟩ := exists_node h (by simp)
    by_cases hp : p = []
    · rw [hp]
      rfl
    · obtain ⟨dir, hdir, hcontent⟩ := stage.parents p name node hnode hp
      rw [fs_of_get hdir, hcontent]

end Stage

variable {r : Path}

theorem topLevelDeletion_iff :
    topLevelDeletion (snapshotStageRoot before) (snapshotStageRoot after) r = true ↔
      after.nodes.get r = none ∧
        ∀ a ∈ before.nodes.keys, a ≠ r → a <+: r → after.nodes.get a ≠ none := by
  have hcontains : ∀ p, (snapshotStageRoot after).contains p = false ↔
      after.nodes.get p = none := by
    intro p
    simp [OrdMap.contains, snapshotStageRoot]
  have hkeys : (snapshotStageRoot before).keys = before.nodes.keys := OrdMap.keys_map ..
  simp only [topLevelDeletion, hkeys, Bool.and_eq_true, Bool.not_eq_true', hcontains,
    List.any_eq_false, decide_eq_true_eq, List.isPrefixOf_iff_prefix, and_imp, not_and]

theorem mem_deletions_iff :
    r ∈ deletions before after ↔ Deleted before.fs after.fs r := by
  rw [deletions, List.mem_filter, topLevelDeletion_iff, Stage.mem_keys_iff]
  constructor
  · intro h
    obtain ⟨⟨hne, hB⟩, hgone, htop⟩ := h
    refine ⟨hB, ?_, ?_⟩
    · rw [Stage.fs_of_ne_nil hne, hgone]
      rfl
    · intro a ha hane
      by_cases hnil : a = []
      · rw [hnil, after.isTree.root]
        exact Option.some_ne_none _
      · have hdir := before.isTree.directory_of_under ha hane hB
        have hkey : a ∈ before.nodes.keys := Stage.mem_keys_iff.mpr ⟨hnil, by simp [hdir]⟩
        have hkept := htop a hkey hane ha
        exact (Stage.mem_keys_iff.mp (after.nodes.mem_keys_iff.mpr hkept)).2
  · intro h
    have hne := h.ne_nil after.isTree
    refine ⟨⟨hne, h.before⟩, ?_, ?_⟩
    · by_contra hthere
      exact (Stage.mem_keys_iff.mp (after.nodes.mem_keys_iff.mpr hthere)).2 h.after
    · intro a hkey hane ha
      have hnil := Stage.ne_nil_of_mem_keys hkey
      exact after.nodes.mem_keys_iff.mp (Stage.mem_keys_iff.mpr ⟨hnil, h.above a ha hane⟩)

theorem deletions_sorted (before after : Stage) : (deletions before after).Pairwise (· < ·) :=
  before.keys_sorted.filter _

variable {fs : Fs}

theorem removePathIfExists_eq (hthere : pathExists host fs r = true)
    (hleaf : fs r ≠ some .directory → ∀ q, r <+: q → r ≠ q → fs q = none) :
    removePathIfExists host fs r = fun q => if r <+: q then none else fs q := by
  rw [removePathIfExists, if_pos hthere]
  split
  · rfl
  · rename_i hnot
    funext q
    rw [Fs.unlink]
    by_cases hq : q = r
    · rw [if_pos hq, if_pos (hq ▸ List.prefix_rfl)]
    · rw [if_neg hq]
      split
      · rename_i hu
        exact hleaf hnot q hu (Ne.symm hq)
      · rfl

variable {path : Path}

theorem apply_whiteoutEntry (hne : path ≠ [])
    (hvalid : ∀ n ∈ path, Path.ValidName n) (hplain : ∀ n ∈ path, ¬ ociWhiteoutPrefix <+: n)
    (hutf8 : Utf8Named path)
    (hdirs : ∀ a, a <+: path → a ≠ path → ∀ target, fs a ≠ some (.symlink target)) :
    applyEntry host fs (whiteoutEntry path) = .ok (removePathIfExists host fs path) := by
  obtain ⟨parent, name, rfl⟩ := (List.eq_nil_or_concat' path).resolve_left hne
  have hname : Path.toStringLossy name = name := by simpa [Utf8Named] using hutf8
  have hentry : whiteoutEntry (parent ++ [name]) =
      ⟨Path.join (parent ++ [ociWhiteoutPrefix ++ name]), .file []⟩ := by
    simp [whiteoutEntry, hname]
  rw [hentry]
  refine applyEntry_whiteout host _ hvalid hname (hplain name (by simp)) fun a ha => ?_
  exact hdirs a (ha.trans (List.prefix_append _ _)) (ne_append_singleton_of_under ha)

theorem apply_deleted_whiteout {gone : List Path} (hplain : before.Plain)
    (hgone : ∀ r' ∈ gone, Deleted before.fs after.fs r') (hr : Deleted before.fs after.fs r)
    (hnot : r ∉ gone) (hutf8 : Utf8Named r) :
    applyEntry host (cleared before.fs gone) (whiteoutEntry r) =
      .ok (removePathIfExists host (cleared before.fs gone) r) := by
  have hne := hr.ne_nil after.isTree
  obtain ⟨node, hnode⟩ := Stage.exists_node hr.before hne
  have hvalid := (before.names r node hnode).2
  have hdirs : ∀ a, a <+: r → a ≠ r → ∀ target,
      cleared before.fs gone a ≠ some (.symlink target) := by
    intro a ha hane target
    rw [cleared_of_above hgone hr hnot ha,
      before.isTree.directory_of_under ha hane hr.before]
    simp
  exact apply_whiteoutEntry hne hvalid (hplain r node hnode) hutf8 hdirs

theorem apply_deletion {gone : List Path} (hplain : before.Plain)
    (hgone : ∀ r' ∈ gone, Deleted before.fs after.fs r') (hr : Deleted before.fs after.fs r)
    (hnot : r ∉ gone) (hutf8 : Utf8Named r)
    (hthere : pathExists host (cleared before.fs gone) r = true) :
    applyEntry host (cleared before.fs gone) (whiteoutEntry r) =
      .ok (cleared before.fs (gone ++ [r])) := by
  rw [apply_deleted_whiteout hplain hgone hr hnot hutf8, cleared_append_singleton,
    removePathIfExists_eq hthere]
  intro hleaf q hu hrq
  rw [cleared_of_above hgone hr hnot List.prefix_rfl] at hleaf
  rw [cleared, before.isTree.eq_none_of_under hu hrq hleaf, ite_self]

theorem deletions_split {gone rest : List Path}
    (hsplit : deletions before after = gone ++ r :: rest) :
    (deletions before after).filter (· < r) = gone ∧ r ∉ gone ∧ r ∉ rest ∧
      ∀ r' ∈ gone, Deleted before.fs after.fs r' := by
  have hsorted := deletions_sorted before after
  rw [hsplit] at hsorted
  obtain ⟨-, hrest, hgone⟩ := List.pairwise_append.mp hsorted
  refine ⟨?_, fun hmem => ?_, fun hmem => ?_, fun r' hr' => ?_⟩
  · rw [hsplit]
    exact filter_lt_of_pairwise hsorted
  · exact lt_irrefl r (hgone r hmem r (List.mem_cons_self ..))
  · exact lt_irrefl r ((List.pairwise_cons.mp hrest).1 r hmem)
  · exact mem_deletions_iff.mp (by simp [hsplit, hr'])

theorem apply_deletions (hplain : before.Plain)
    (hreach : ∀ r ∈ deletions before after, Utf8Named r ∧ pathExists host
      (cleared before.fs ((deletions before after).filter (· < r))) r = true) :
    ∀ (rest gone : List Path), deletions before after = gone ++ rest →
      (rest.map whiteoutEntry).foldlM (applyEntry host) (cleared before.fs gone) =
        .ok (cleared before.fs (deletions before after)) := by
  intro rest
  induction rest with
  | nil =>
    intro gone hsplit
    rw [hsplit, List.append_nil]
    rfl
  | cons r rest ih =>
    intro gone hsplit
    obtain ⟨hfilter, hnot, -, hgone⟩ := deletions_split hsplit
    have hr : r ∈ deletions before after := by simp [hsplit]
    obtain ⟨hutf8, hthere⟩ := hreach r hr
    rw [hfilter] at hthere
    rw [List.map_cons, List.foldlM_cons,
      apply_deletion hplain hgone (mem_deletions_iff.mp hr) hnot hutf8 hthere]
    exact ih (gone ++ [r]) (by rw [hsplit, List.append_assoc, List.singleton_append])

structure Ready (fs : Fs) (path : Path) (content : Content) : Prop where
  above : ∀ a, a <+: path → a ≠ path → fs a = some .directory
  directory : content = .directory → fs path = none ∨ fs path = some .directory
  other : content ≠ .directory → fs path ≠ some .directory

theorem apply_contentEntry {content : Content} (hunpack : host.Unpacks)
    (hne : path ≠ []) (hvalid : ∀ n ∈ path, Path.ValidName n)
    (hplain : ∀ n ∈ path, ¬ ociWhiteoutPrefix <+: n) (hready : Ready fs path content) :
    applyEntry host fs ⟨Path.join path, content.entryType⟩ = .ok (fs.set path content) := by
  obtain ⟨parent, name, rfl⟩ := (List.eq_nil_or_concat' path).resolve_left hne
  have hdirs : ∀ a, a <+: parent → fs a = some .directory := fun a ha =>
    hready.above a (ha.trans (List.prefix_append _ _)) (ne_append_singleton_of_under ha)
  rw [applyEntry_plain host _ hne hvalid hplain (by simpa using hdirs)]
  by_cases hcontent : content = .directory
  · rw [hcontent, Content.entryType, if_pos rfl, createDirAll_append_singleton host name hdirs,
      mkdir]
    cases hready.directory hcontent with
    | inl hnone =>
      rw [if_pos hnone]
      rfl
    | inr hdir =>
      have hset : fs.set (parent ++ [name]) .directory = fs := by
        funext q
        rw [Fs.set]
        split
        · rename_i hq
          rw [hq, hdir]
        · rfl
      rw [if_neg (by simp [hdir]), if_pos (by simp [isDir, hdir]), hset]
      rfl
  · have hdone := hunpack.replaces fs (parent ++ [name]) content hcontent
      (by simpa using hdirs parent List.prefix_rfl) (hready.other hcontent)
    cases content with
    | file bytes =>
      rw [Content.entryType] at hdone ⊢
      rw [if_neg (by simp)]
      simp only [hdone]
      rfl
    | directory => exact absurd rfl hcontent
    | symlink target =>
      rw [Content.entryType] at hdone ⊢
      rw [if_neg (by simp)]
      simp only [hdone]
      rfl

theorem kindChanged_iff {p : Path} {new : Node} :
    kindChanged ((snapshotStageRoot before).get p) new.state = true ↔
      ∃ old, before.nodes.get p = some old ∧ old.content.kind ≠ new.content.kind := by
  rw [snapshotStageRoot, OrdMap.get_map]
  cases before.nodes.get p with
  | none => simp [kindChanged]
  | some old =>
    have hdecide : kindChanged (some old.state) new.state =
      decide (old.content.kind ≠ new.content.kind) := rfl
    rw [Option.map_some, hdecide, decide_eq_true_iff]
    simp

theorem kind_eq_directory_iff {content : Content} :
    content.kind = .directory ↔ content = .directory := by
  cases content <;> simp [Content.kind]

theorem set_removed (content : Content)
    (hunder : ∀ q, path <+: q → path ≠ q → fs q = none) :
    Fs.set (fun q => if path <+: q then none else fs q) path content = fs.set path content := by
  funext q
  rw [Fs.set, Fs.set]
  by_cases hq : q = path
  · rw [if_pos hq, if_pos hq]
  · rw [if_neg hq, if_neg hq]
    split
    · rename_i hu
      exact (hunder q hu (Ne.symm hq)).symm
    · rfl

theorem ready_after_whiteout {done : List Path} {p : Path} {new : Node}
    (hnew : after.nodes.get p = some new) (hplain : after.Plain)
    (hdone : Written after.fs done p)
    (hreach : kindChanged ((snapshotStageRoot before).get p) new.state = true → Utf8Named p ∧
      (new.content = .directory →
        pathExists host (rebuilt before.fs after.fs done) p = true)) :
    ∃ fs, (if kindChanged ((snapshotStageRoot before).get p) new.state = true
        then [whiteoutEntry p] else []).foldlM (applyEntry host)
          (rebuilt before.fs after.fs done) = .ok fs ∧
      Ready fs p new.content ∧
      fs.set p new.content = Fs.set (rebuilt before.fs after.fs done) p new.content := by
  have hA : after.fs p = some new.content := Stage.fs_of_get hnew
  have hAne : after.fs p ≠ none := by simp [hA]
  obtain ⟨hne, hvalid⟩ := after.names p new hnew
  have habove : ∀ a, a <+: p → a ≠ p → rebuilt before.fs after.fs done a = some .directory :=
    fun a ha hane => hdone.above before.isTree after.isTree hAne ha hane
  have hat : rebuilt before.fs after.fs done p = before.fs p := hdone.at hAne
  by_cases hkind : kindChanged ((snapshotStageRoot before).get p) new.state = true
  · obtain ⟨old, hold, hdiffer⟩ := kindChanged_iff.mp hkind
    have hB : before.fs p = some old.content := Stage.fs_of_get hold
    obtain ⟨hutf8, hexists⟩ := hreach hkind
    have hdirs : ∀ a, a <+: p → a ≠ p → ∀ target,
        rebuilt before.fs after.fs done a ≠ some (.symlink target) := by
      intro a ha hane target
      rw [habove a ha hane]
      simp
    have hwhiteout : applyEntry host (rebuilt before.fs after.fs done) (whiteoutEntry p) =
        .ok (removePathIfExists host (rebuilt before.fs after.fs done) p) :=
      apply_whiteoutEntry hne hvalid (hplain p new hnew) hutf8 hdirs
    rw [if_pos hkind]
    simp only [List.foldlM_cons, List.foldlM_nil, hwhiteout]
    have hnotBoth : new.content ≠ .directory ∨ old.content ≠ .directory := by
      by_contra hboth
      simp only [not_or, not_not] at hboth
      exact hdiffer (by rw [hboth.1, hboth.2])
    have hunder : ∀ q, p <+: q → p ≠ q → rebuilt before.fs after.fs done q = none :=
      fun q hu hpq => hdone.under before.isTree after.isTree (by simpa [hA, hB] using hnotBoth)
        hu hpq
    by_cases hthere : pathExists host (rebuilt before.fs after.fs done) p = true
    · rw [removePathIfExists_eq hthere fun _ => hunder]
      refine ⟨_, rfl, ⟨?_, ?_, ?_⟩, set_removed _ hunder⟩
      · intro a ha hane
        have hnot : ¬ p <+: a := fun hpa => hane (ha.eq_of_length_le hpa.length_le)
        rw [if_neg hnot, habove a ha hane]
      · intro _
        exact .inl (if_pos List.prefix_rfl)
      · intro _
        rw [if_pos List.prefix_rfl]
        simp
    · have hcontent : new.content ≠ .directory := fun h => hthere (hexists h)
      have hlink : before.fs p ≠ some .directory := by
        intro hdir
        exact hthere (by simp [pathExists, hat, hdir])
      rw [removePathIfExists, if_neg hthere]
      exact ⟨_, rfl, ⟨habove, fun h => absurd h hcontent, fun _ => hat ▸ hlink⟩, rfl⟩
  · have hsame : ∀ old, before.nodes.get p = some old → old.content.kind = new.content.kind := by
      intro old hold
      by_contra hdiffer
      exact hkind (kindChanged_iff.mpr ⟨old, hold, hdiffer⟩)
    rw [if_neg hkind]
    refine ⟨_, rfl, ⟨habove, ?_, ?_⟩, rfl⟩
    · intro hcontent
      rw [hat, Stage.fs_of_ne_nil hne]
      cases hold : before.nodes.get p with
      | none => exact .inl rfl
      | some old =>
        have hdir := hsame old hold
        rw [hcontent] at hdir
        exact .inr (congrArg some (kind_eq_directory_iff.mp hdir))
    · intro hcontent
      rw [hat, Stage.fs_of_ne_nil hne]
      cases hold : before.nodes.get p with
      | none => simp
      | some old =>
        intro hdir
        have hkind' := hsame old hold
        rw [Option.some.inj hdir] at hkind'
        exact hcontent (kind_eq_directory_iff.mp hkind'.symm)

theorem apply_change {done : List Path} {change : Path × Node} (hunpack : host.Unpacks)
    (hplain : after.Plain) (hseen : ChangesSeen before after)
    (hchange : change ∈ after.nodes.entries) (hdone : Written after.fs done change.1)
    (hreach : kindChanged ((snapshotStageRoot before).get change.1) change.2.state = true →
      Utf8Named change.1 ∧ (change.2.content = .directory →
        pathExists host (rebuilt before.fs after.fs done) change.1 = true)) :
    (changeEntries before change).foldlM (applyEntry host) (rebuilt before.fs after.fs done) =
      .ok (rebuilt before.fs after.fs (done ++ [change.1])) := by
  obtain ⟨p, new⟩ := change
  have hnew : after.nodes.get p = some new := after.nodes.get_eq_some_iff.mpr hchange
  have hA : after.fs p = some new.content := Stage.fs_of_get hnew
  have hnext : rebuilt before.fs after.fs (done ++ [p]) =
      Fs.set (rebuilt before.fs after.fs done) p new.content := by
    rw [rebuilt_append_singleton, hA]
    rfl
  by_cases hsame : (snapshotStageRoot before).get p = some new.state
  · rw [changeEntries, if_pos hsame]
    rw [snapshotStageRoot, OrdMap.get_map, Option.map_eq_some_iff] at hsame
    obtain ⟨old, hold, hstate⟩ := hsame
    have hcontent : old.content = new.content := by
      by_contra hne
      exact hseen p old new hold hnew hne hstate
    have hat : rebuilt before.fs after.fs done p = some new.content := by
      rw [hdone.at (by simp [hA]), Stage.fs_of_get hold, hcontent]
    have hunchanged : Fs.set (rebuilt before.fs after.fs done) p new.content =
        rebuilt before.fs after.fs done := by
      funext q
      rw [Fs.set]
      split
      · rename_i hq
        rw [hq, hat]
      · rfl
    rw [hnext, hunchanged]
    rfl
  · obtain ⟨fs, hwhiteout, hready, hset⟩ := ready_after_whiteout hnew hplain hdone hreach
    obtain ⟨hne, hvalid⟩ := after.names p new hnew
    rw [changeEntries, if_neg hsame, List.foldlM_append, hwhiteout, hnext, ← hset]
    have hstage := apply_contentEntry hunpack hne hvalid (hplain p new hnew) hready
    change [(⟨Path.join p, new.content.entryType⟩ : Entry)].foldlM (applyEntry host) fs = _
    rw [List.foldlM_cons, hstage]
    rfl

theorem written_of_split {done rest : List (Path × Node)} {change : Path × Node}
    (hsplit : after.nodes.entries = done ++ change :: rest) :
    after.nodes.keys.filter (· < change.1) = done.map Prod.fst ∧
      Written after.fs (done.map Prod.fst) change.1 := by
  have hkeys : after.nodes.keys = done.map Prod.fst ++ change.1 :: rest.map Prod.fst := by
    rw [OrdMap.keys, hsplit, List.map_append, List.map_cons]
  have hsorted := after.keys_sorted
  have hfilter : after.nodes.keys.filter (· < change.1) = done.map Prod.fst := by
    rw [hkeys] at hsorted ⊢
    exact filter_lt_of_pairwise hsorted
  refine ⟨hfilter, ?_⟩
  rw [← hfilter]
  refine ⟨fun q hq => of_decide_eq_true (List.mem_filter.mp hq).2, fun q hq hnil hlt => ?_⟩
  exact List.mem_filter.mpr ⟨Stage.mem_keys_iff.mpr ⟨hnil, hq⟩, decide_eq_true hlt⟩

theorem apply_changes (hunpack : host.Unpacks) (hplain : after.Plain)
    (hseen : ChangesSeen before after) (hreach : WhiteoutsReach host before after) :
    ∀ rest done, after.nodes.entries = done ++ rest →
      (rest.map (changeEntries before)).flatten.foldlM (applyEntry host)
        (rebuilt before.fs after.fs (done.map Prod.fst)) = .ok after.fs := by
  intro rest
  induction rest with
  | nil =>
    intro done hsplit
    rw [List.append_nil] at hsplit
    have hall : rebuilt before.fs after.fs (done.map Prod.fst) = after.fs := by
      refine rebuilt_all fun q hq => ?_
      by_cases hnil : q = []
      · exact .inr (by rw [hnil, before.isTree.root, after.isTree.root])
      · left
        rw [← hsplit]
        exact Stage.mem_keys_iff.mpr ⟨hnil, hq⟩
    rw [hall]
    rfl
  | cons change rest ih =>
    intro done hsplit
    obtain ⟨hfilter, hdone⟩ := written_of_split hsplit
    have hchange : change ∈ after.nodes.entries := by simp [hsplit]
    have hhere := hreach.changed change hchange
    rw [hfilter] at hhere
    rw [List.map_cons, List.flatten_cons, List.foldlM_append,
      apply_change hunpack hplain hseen hchange hdone hhere]
    have hnext := ih (done ++ [change]) (by rw [hsplit, List.append_assoc, List.singleton_append])
    rw [List.map_append] at hnext
    exact hnext

/-- The layer of the two roots, applied to the first, gives the second. -/
def Reproduces (host : Host) (before after : Stage) : Prop :=
  ∃ entries, buildLayerFromSnapshot after (snapshotStageRoot before) = .ok entries ∧
    applyLayerTar host before.fs entries = .ok after.fs

theorem cleared_nil (fs : Fs) : cleared fs [] = fs := by
  funext q
  simp [cleared]

theorem reproduces_of_reach (hunpack : host.Unpacks) (hbefore : before.Plain)
    (hafter : after.Plain) (hseen : ChangesSeen before after)
    (hreach : WhiteoutsReach host before after) : Reproduces host before after := by
  refine ⟨_, buildLayerFromSnapshot_eq before after, ?_⟩
  have hdeletions := apply_deletions hbefore hreach.deleted (deletions before after) [] rfl
  rw [cleared_nil] at hdeletions
  have hchanges := apply_changes hunpack hafter hseen hreach after.nodes.entries [] rfl
  rw [applyLayerTar, List.foldlM_append, hdeletions,
    cleared_eq_rebuilt before.isTree after.isTree fun r => mem_deletions_iff]
  exact hchanges

end Ferrocrate.Rootfs
