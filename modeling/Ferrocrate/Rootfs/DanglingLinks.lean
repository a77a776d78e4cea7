import Ferrocrate.Rootfs.Reproduce

/-! Where whiteouts miss their path: `remove_path_if_exists` of `rootfs.rs` on links that lead
nowhere. A deleted link then stays, and a link that makes way for a directory stops the
layer. -/
namespace Ferrocrate.Rootfs
open Lib Lib.PathTree
open scoped Lib.Path

variable {host : Host} {before after : Stage} {fs fs' : Fs}

theorem whiteoutEntry_frame {p q : Path} (hne : p ≠ [])
    (hvalid : ∀ n ∈ p, Path.ValidName n) (hplain : ∀ n ∈ p, ¬ ociWhiteoutPrefix <+: n)
    (hutf8 : Utf8Named p) (hq : ¬ p <+: q)
    (h : applyEntry host fs (whiteoutEntry p) = .ok fs') : fs' q = fs q := by
  obtain ⟨parent, name, rfl⟩ := (List.eq_nil_or_concat' p).resolve_left hne
  have hname : Path.toStringLossy name = name := by simpa [Utf8Named] using hutf8
  have hentry : whiteoutEntry (parent ++ [name]) =
      ⟨Path.join (parent ++ [ociWhiteoutPrefix ++ name]), .file []⟩ := by
    simp [whiteoutEntry, hname]
  rw [hentry, applyEntry_whiteout_eq host _ hvalid hname (hplain name (by simp))] at h
  obtain ⟨_, -, hremove⟩ := Except.bind_eq_ok.mp h
  cases hremove
  exact removePathIfExists_frame hq

theorem applyEntry_plain_ok {path : Path} {content : Content} (hne : path ≠ [])
    (hvalid : ∀ n ∈ path, Path.ValidName n) (hplain : ∀ n ∈ path, ¬ ociWhiteoutPrefix <+: n)
    (h : applyEntry host fs ⟨Path.join path, content.entryType⟩ = .ok fs') :
    (content = .directory ∧ createDirAll host fs path = .ok fs') ∨
      (content ≠ .directory ∧ ∃ made, createDirAll host fs path.dropLast = .ok made ∧
        host.unpack made path content.entryType = .ok fs') := by
  have hname := fileName_plain hplain
  rw [applyEntry, sanitizeArchivePath_join hne hvalid] at h
  change (if fileName path = ociOpaqueWhiteout then _ else _) = _ at h
  rw [if_neg (ne_ociOpaqueWhiteout hname), whiteoutTargetName_plain hname] at h
  change (if content.entryType = .directory then _ else if path = [] then _ else _) = _ at h
  cases content with
  | directory =>
    rw [Content.entryType, if_pos rfl] at h
    obtain ⟨_, -, h⟩ := Except.bind_eq_ok.mp h
    exact .inl ⟨rfl, Except.mapError_eq_ok.mp h⟩
  | file bytes =>
    rw [Content.entryType, if_neg (by simp), if_neg hne] at h
    obtain ⟨_, -, h⟩ := Except.bind_eq_ok.mp h
    obtain ⟨made, hdirs, h⟩ := Except.bind_eq_ok.mp h
    exact .inr ⟨by simp, made, Except.mapError_eq_ok.mp hdirs, Except.mapError_eq_ok.mp h⟩
  | symlink target =>
    rw [Content.entryType, if_neg (by simp), if_neg hne] at h
    obtain ⟨_, -, h⟩ := Except.bind_eq_ok.mp h
    obtain ⟨made, hdirs, h⟩ := Except.bind_eq_ok.mp h
    exact .inr ⟨by simp, made, Except.mapError_eq_ok.mp hdirs, Except.mapError_eq_ok.mp h⟩

theorem contentEntry_frame {path q : Path} {content : Content}
    (hunpack : host.Unpacks) (hne : path ≠ []) (hvalid : ∀ n ∈ path, Path.ValidName n)
    (hplain : ∀ n ∈ path, ¬ ociWhiteoutPrefix <+: n) (hq : fs q ≠ none)
    (hnot : content ≠ .directory → ¬ path <+: q)
    (h : applyEntry host fs ⟨Path.join path, content.entryType⟩ = .ok fs') : fs' q = fs q := by
  cases applyEntry_plain_ok hne hvalid hplain h with
  | inl hdir => exact createDirAll_keeps hdir.2 hq
  | inr hother =>
    obtain ⟨hcontent, made, hmade, hdone⟩ := hother
    have hkept := createDirAll_keeps hmade hq
    rw [hunpack.elsewhere made fs' path content hdone q (hnot hcontent), hkept]


structure NamedUtf8 (before after : Stage) : Prop where
  deleted : ∀ r ∈ deletions before after, Utf8Named r
  changed : ∀ e ∈ after.nodes.entries,
    kindChanged ((snapshotStageRoot before).get e.1) e.2.state = true → Utf8Named e.1

def LinksStand (before after : Stage) : Prop :=
  ∀ r ∈ deletions before after, ∀ target, before.fs r = some (.symlink target) →
    after.fs r.dropLast = some .directory

theorem foldlM_frame {entries : List Entry} {q : Path}
    (hframe : ∀ entry ∈ entries, ∀ fs fs' : Fs, fs q ≠ none →
      applyEntry host fs entry = .ok fs' → fs' q = fs q) :
    ∀ fs fs' : Fs, fs q ≠ none → entries.foldlM (applyEntry host) fs = .ok fs' →
      fs' q = fs q := by
  induction entries with
  | nil =>
    intro fs fs' _ h
    cases h
    rfl
  | cons entry entries ih =>
    intro fs fs' hq h
    rw [List.foldlM_cons] at h
    obtain ⟨next, hstep, hrest⟩ := Except.bind_eq_ok.mp h
    have hkept := hframe entry (List.mem_cons_self ..) fs next hq hstep
    rw [ih (fun e he => hframe e (List.mem_cons_of_mem _ he)) next fs' (by rwa [hkept]) hrest,
      hkept]

theorem directory_above_link {r p : Path} {parent : Path} {name : Name}
    (hr : r = parent ++ [name]) (hparent : after.fs parent = some .directory)
    (hp : p <+: r) (hne : p ≠ r) : after.fs p = some .directory := by
  rw [hr] at hp hne
  have hup : p <+: parent := (List.prefix_concat_iff.mp hp).resolve_left hne
  by_cases heq : p = parent
  · rwa [heq]
  · exact after.isTree.directory_of_under hup heq (by simp [hparent])

theorem link_of_missing {fs : Fs} {p : Path} (h : ¬ pathExists host fs p = true)
    (hthere : fs p ≠ none) : ∃ target, fs p = some (.symlink target) := by
  cases hp : fs p with
  | none => exact absurd hp hthere
  | some content =>
    cases content with
    | file bytes => exact absurd (by simp [pathExists, hp]) h
    | directory => exact absurd (by simp [pathExists, hp]) h
    | symlink target => exact ⟨target, rfl⟩

theorem changes_frame {r : Path} {target : Bytes} (hunpack : host.Unpacks)
    (hplain : after.Plain) (hutf8 : NamedUtf8 before after) (hstand : LinksStand before after)
    (hr : r ∈ deletions before after) (hlink : before.fs r = some (.symlink target)) :
    ∀ entry ∈ (after.nodes.entries.map (changeEntries before)).flatten, ∀ fs fs' : Fs,
      fs r ≠ none → applyEntry host fs entry = .ok fs' → fs' r = fs r := by
  intro entry hentry fs fs' hthere h
  have hdeleted := mem_deletions_iff.mp hr
  have hnil := hdeleted.ne_nil after.isTree
  obtain ⟨parent, name, hsplit⟩ := (List.eq_nil_or_concat' r).resolve_left hnil
  have hparent : after.fs parent = some .directory := by
    have hdir := hstand r hr target hlink
    rwa [hsplit, List.dropLast_concat] at hdir
  obtain ⟨es, hes, hin⟩ := List.mem_flatten.mp hentry
  obtain ⟨change, hchange, rfl⟩ := List.mem_map.mp hes
  obtain ⟨p, new⟩ := change
  have hnew : after.nodes.get p = some new := after.nodes.get_eq_some_iff.mpr hchange
  have hA : after.fs p = some new.content := Stage.fs_of_get hnew
  obtain ⟨hne, hvalid⟩ := after.names p new hnew
  have hpr : p ≠ r := by
    intro heq
    rw [heq, hdeleted.after] at hA
    cases hA
  have hdirectory : p <+: r → new.content = .directory := by
    intro hu
    rw [directory_above_link hsplit hparent hu hpr] at hA
    exact (Option.some.inj hA).symm
  rw [changeEntries] at hin
  split at hin
  · cases hin
  · cases List.mem_append.mp hin with
    | inl hwhiteout =>
      split at hwhiteout
      · rename_i hkind
        cases List.mem_singleton.mp hwhiteout
        have hnot : ¬ p <+: r := by
          intro hu
          obtain ⟨old, hold, hdiffer⟩ := kindChanged_iff.mp hkind
          have hB := before.isTree.directory_of_under hu hpr hdeleted.before
          rw [Stage.fs_of_get hold] at hB
          exact hdiffer (by rw [Option.some.inj hB, hdirectory hu])
        exact whiteoutEntry_frame hne hvalid (hplain p new hnew)
          (hutf8.changed (p, new) hchange hkind) hnot h
      · cases hwhiteout
    | inr hcontent =>
      cases List.mem_singleton.mp hcontent
      exact contentEntry_frame hunpack hne hvalid (hplain p new hnew) hthere
        (fun hother hu => hother (hdirectory hu)) h

theorem deletions_reach (hunpack : host.Unpacks) (hbefore : before.Plain)
    (hafter : after.Plain) (hutf8 : NamedUtf8 before after) (hstand : LinksStand before after) :
    ∀ rest gone, deletions before after = gone ++ rest →
      (rest.map whiteoutEntry ++ (after.nodes.entries.map (changeEntries before)).flatten).foldlM
        (applyEntry host) (cleared before.fs gone) = .ok after.fs →
      ∀ r ∈ rest, pathExists host
        (cleared before.fs ((deletions before after).filter (· < r))) r = true := by
  intro rest
  induction rest with
  | nil => simp
  | cons r rest ih =>
    intro gone hsplit h
    obtain ⟨hfilter, hnot, hlater, hgone⟩ := deletions_split hsplit
    have hr : r ∈ deletions before after := by simp [hsplit]
    have hdeleted := mem_deletions_iff.mp hr
    have hhere : pathExists host (cleared before.fs gone) r = true := by
      by_contra hmissing
      have hat : cleared before.fs gone r = before.fs r :=
        cleared_of_above hgone hdeleted hnot List.prefix_rfl
      obtain ⟨target, hlink⟩ := link_of_missing hmissing (by rw [hat]; exact hdeleted.before)
      have hfirst : applyEntry host (cleared before.fs gone) (whiteoutEntry r) =
          .ok (removePathIfExists host (cleared before.fs gone) r) :=
        apply_deleted_whiteout hbefore hgone hdeleted hnot (hutf8.deleted r hr)
      rw [removePathIfExists, if_neg hmissing] at hfirst
      rw [List.map_cons, List.cons_append, List.foldlM_cons, hfirst] at h
      have hframe : ∀ entry ∈ rest.map whiteoutEntry ++
          (after.nodes.entries.map (changeEntries before)).flatten, ∀ fs fs' : Fs,
          fs r ≠ none → applyEntry host fs entry = .ok fs' → fs' r = fs r := by
        intro entry hentry fs fs' hthere hstep
        cases List.mem_append.mp hentry with
        | inl hentry =>
          obtain ⟨p, hp, rfl⟩ := List.mem_map.mp hentry
          have hin : p ∈ deletions before after := by simp [hsplit, hp]
          have hkey := (List.mem_filter.mp hin).1
          obtain ⟨node, hnode⟩ :=
            Option.ne_none_iff_exists'.mp (before.nodes.mem_keys_iff.mp hkey)
          have hpr : ¬ p <+: r := by
            intro hu
            have heq := hdeleted.eq_of_under (mem_deletions_iff.mp hin) hu
            exact hlater (heq ▸ hp)
          exact whiteoutEntry_frame (before.names p node hnode).1 (before.names p node hnode).2
            (hbefore p node hnode) (hutf8.deleted p hin) hpr hstep
        | inr hentry =>
          rw [hat] at hlink
          exact changes_frame hunpack hafter hutf8 hstand hr hlink entry hentry fs fs' hthere hstep
      have hkept := foldlM_frame hframe _ _ (by rw [hlink]; simp) h
      rw [hdeleted.after, hlink] at hkept
      cases hkept
    have hstep := apply_deletion hbefore hgone hdeleted hnot (hutf8.deleted r hr) hhere
    rw [List.map_cons, List.cons_append, List.foldlM_cons, hstep] at h
    intro r' hr'
    cases List.mem_cons.mp hr' with
    | inl heq => rwa [heq, hfilter]
    | inr hr' =>
      exact ih (gone ++ [r]) (by rw [hsplit, List.append_assoc, List.singleton_append]) h r' hr'


theorem replaced_link_fails {done : List Path} {change : Path × Node} (hplain : after.Plain)
    (hchange : change ∈ after.nodes.entries) (hdone : Written after.fs done change.1)
    (hkind : kindChanged ((snapshotStageRoot before).get change.1) change.2.state = true)
    (hdir : change.2.content = .directory) (hutf8 : Utf8Named change.1)
    (hmissing : ¬ pathExists host (rebuilt before.fs after.fs done) change.1 = true) :
    (changeEntries before change).foldlM (applyEntry host) (rebuilt before.fs after.fs done) =
      .error (.readLayer (.notADirectory change.1)) := by
  obtain ⟨p, new⟩ := change
  have hnew : after.nodes.get p = some new := after.nodes.get_eq_some_iff.mpr hchange
  have hAne : after.fs p ≠ none := by simp [Stage.fs_of_get hnew]
  obtain ⟨hne, hvalid⟩ := after.names p new hnew
  obtain ⟨old, hold, hdiffer⟩ := kindChanged_iff.mp hkind
  have hat : rebuilt before.fs after.fs done p = some old.content :=
    (hdone.at hAne).trans (Stage.fs_of_get hold)
  have habove : ∀ a, a <+: p → a ≠ p → rebuilt before.fs after.fs done a = some .directory :=
    fun a ha hane => hdone.above before.isTree after.isTree hAne ha hane
  have hdirs : ∀ a, a <+: p → a ≠ p → ∀ target,
      rebuilt before.fs after.fs done a ≠ some (.symlink target) := by
    intro a ha hane target
    rw [habove a ha hane]
    simp
  obtain ⟨target, hlink⟩ := link_of_missing hmissing (by simp [hat])
  have hwhiteout : applyEntry host (rebuilt before.fs after.fs done) (whiteoutEntry p) =
      .ok (rebuilt before.fs after.fs done) := by
    rw [apply_whiteoutEntry hne hvalid (hplain p new hnew) hutf8 hdirs, removePathIfExists,
      if_neg hmissing]
  have hstate : (snapshotStageRoot before).get p ≠ some new.state := by
    rw [snapshotStageRoot, OrdMap.get_map, hold]
    intro hsame
    exact hdiffer (congrArg StagePathState.kind (Option.some.inj hsame))
  have hentries : changeEntries before (p, new) =
      [whiteoutEntry p, ⟨Path.join p, .directory⟩] := by
    have hcontent : new.content = .directory := hdir
    rw [changeEntries, if_neg hstate, if_pos hkind]
    simp [hcontent, Content.entryType]
  have hmkdir : applyEntry host (rebuilt before.fs after.fs done) ⟨Path.join p, .directory⟩ =
      .error (.readLayer (.notADirectory p)) := by
    obtain ⟨parent, name, rfl⟩ := (List.eq_nil_or_concat' p).resolve_left hne
    have hparent : ∀ a, a <+: parent → rebuilt before.fs after.fs done a = some .directory :=
      fun a ha =>
        habove a (ha.trans (List.prefix_append _ _)) (ne_append_singleton_of_under ha)
    have hnotDir : isDir host (rebuilt before.fs after.fs done) (parent ++ [name]) = false := by
      simp only [pathExists, hlink, Bool.not_eq_true, Option.isSome_eq_false_iff,
        Option.isNone_iff_eq_none] at hmissing
      simp [isDir, hlink, hmissing]
    rw [applyEntry_plain host _ hne hvalid (hplain _ new hnew) (by simpa using hparent),
      if_pos rfl, createDirAll_append_singleton host name hparent, mkdir, if_neg (by simp [hat]),
      if_neg (by simp [hnotDir])]
    rfl
  rw [hentries, List.foldlM_cons, hwhiteout]
  change (applyEntry host (rebuilt before.fs after.fs done) ⟨Path.join p, .directory⟩ >>= _) = _
  rw [hmkdir]
  rfl

theorem changes_reach (hunpack : host.Unpacks) (hplain : after.Plain)
    (hseen : ChangesSeen before after) (hutf8 : NamedUtf8 before after) :
    ∀ rest done, after.nodes.entries = done ++ rest →
      (rest.map (changeEntries before)).flatten.foldlM (applyEntry host)
        (rebuilt before.fs after.fs (done.map Prod.fst)) = .ok after.fs →
      ∀ e ∈ rest, kindChanged ((snapshotStageRoot before).get e.1) e.2.state = true →
        e.2.content = .directory → pathExists host
          (rebuilt before.fs after.fs (after.nodes.keys.filter (· < e.1))) e.1 = true := by
  intro rest
  induction rest with
  | nil => simp
  | cons change rest ih =>
    intro done hsplit h
    obtain ⟨hfilter, hdone⟩ := written_of_split hsplit
    have hchange : change ∈ after.nodes.entries := by simp [hsplit]
    rw [List.map_cons, List.flatten_cons, List.foldlM_append] at h
    have hhere : kindChanged ((snapshotStageRoot before).get change.1) change.2.state = true →
        change.2.content = .directory →
        pathExists host (rebuilt before.fs after.fs (done.map Prod.fst)) change.1 = true := by
      intro hkind hdir
      by_contra hmissing
      rw [replaced_link_fails hplain hchange hdone hkind hdir
        (hutf8.changed change hchange hkind) hmissing] at h
      cases h
    have hstep := apply_change hunpack hplain hseen hchange hdone
      fun hkind => ⟨hutf8.changed change hchange hkind, hhere hkind⟩
    rw [hstep] at h
    intro e he
    cases List.mem_cons.mp he with
    | inl heq =>
      rw [heq, hfilter]
      exact hhere
    | inr he =>
      have hnext := ih (done ++ [change])
        (by rw [hsplit, List.append_assoc, List.singleton_append])
      rw [List.map_append] at hnext
      exact hnext h e he


theorem reach_of_reproduces (hunpack : host.Unpacks) (hbefore : before.Plain)
    (hafter : after.Plain) (hseen : ChangesSeen before after) (hutf8 : NamedUtf8 before after)
    (hstand : LinksStand before after) (h : Reproduces host before after) :
    WhiteoutsReach host before after := by
  obtain ⟨entries, hbuild, happly⟩ := h
  rw [buildLayerFromSnapshot_eq] at hbuild
  cases hbuild
  rw [applyLayerTar, ← cleared_nil before.fs] at happly
  have hdeleted := deletions_reach hunpack hbefore hafter hutf8 hstand
    (deletions before after) [] rfl happly
  have hreach : ∀ r ∈ deletions before after, Utf8Named r ∧ pathExists host
      (cleared before.fs ((deletions before after).filter (· < r))) r = true :=
    fun r hr => ⟨hutf8.deleted r hr, hdeleted r hr⟩
  rw [List.foldlM_append, apply_deletions hbefore hreach (deletions before after) [] rfl,
    cleared_eq_rebuilt before.isTree after.isTree fun r => mem_deletions_iff] at happly
  have hchanged := changes_reach hunpack hafter hseen hutf8 after.nodes.entries [] rfl happly
  exact ⟨hreach, fun e he hkind => ⟨hutf8.changed e he hkind, hchanged e he hkind⟩⟩

/-- The layer of two stage roots turns the first into the second when every whiteout finds
its path; and only then, where names are UTF-8 and no deleted link goes with its directory. -/
theorem snapshot_layer_reproduces_iff (hunpack : host.Unpacks) (hbefore : before.Plain)
    (hafter : after.Plain) (hseen : ChangesSeen before after) :
    (WhiteoutsReach host before after → Reproduces host before after) ∧
      (NamedUtf8 before after → LinksStand before after →
        (Reproduces host before after ↔ WhiteoutsReach host before after)) :=
  ⟨reproduces_of_reach hunpack hbefore hafter hseen, fun hutf8 hstand =>
    ⟨reach_of_reproduces hunpack hbefore hafter hseen hutf8 hstand,
      reproduces_of_reach hunpack hbefore hafter hseen⟩⟩

def followLinks : Nat → Fs → Path → Option Content
  | 0, _, _ => none
  | hops + 1, fs, path =>
    match fs path with
    | some (.symlink target) =>
      match sanitizeArchivePath target with
      | .ok relative => followLinks hops fs (path.dropLast ++ relative)
      | .error _ => none
    | content => content

def bareHost : Host where
  leads := followLinks 40
  readDir := fun _ _ => []
  unpack := fun fs path entryType =>
    if fs path = some .directory then .error (.other "is a directory")
    else match entryType with
      | .file bytes => .ok (fs.set path (.file bytes))
      | .symlink target => .ok (fs.set path (.symlink target))
      | _ => .error (.other "unsupported entry")
  hardLink := fun _ _ _ => .error (.other "unsupported")

theorem bareHost_unpacks : bareHost.Unpacks where
  replaces fs path content hcontent _ hnot := by
    cases content with
    | file bytes => simp [bareHost, hnot, Content.entryType]
    | directory => exact absurd rfl hcontent
    | symlink target => simp [bareHost, hnot, Content.entryType]
  elsewhere fs fs' path content h q hq := by
    have hne : q ≠ path := fun heq => hq (heq ▸ List.prefix_rfl)
    simp only [bareHost] at h
    split at h
    · cases h
    · cases content with
      | file bytes =>
        cases h
        exact if_neg hne
      | directory => cases h
      | symlink target =>
        cases h
        exact if_neg hne

def fileNode (bytes : Bytes) (modified : Int) : Node :=
  ⟨.file bytes, UInt64.ofNat bytes.length, some modified, 0o100644⟩

def directoryNode : Node := ⟨.directory, 4096, some 0, 0o40755⟩

def linkNode (target : Bytes) : Node :=
  ⟨.symlink target, UInt64.ofNat target.length, some 0, 0o120777⟩

def firstRoot : Stage where
  nodes := ⟨[([[100]], directoryNode), ([[100], [102]], fileNode [1] 0), ([[107]], fileNode [3] 0),
    ([[108]], linkNode [100, 47, 102])], by decide⟩
  named := by decide
  placed := by decide

def secondRoot : Stage where
  nodes := ⟨[([[100]], directoryNode), ([[100], [102]], fileNode [2] 1), ([[108]], directoryNode)],
    by decide⟩
  named := by decide
  placed := by decide

theorem plain_of_entries {stage : Stage}
    (h : ∀ e ∈ stage.nodes.entries, ∀ name ∈ e.1, ¬ ociWhiteoutPrefix <+: name) : stage.Plain :=
  fun p node hget => h (p, node) (stage.nodes.get_eq_some_iff.mp hget)

theorem changesSeen_of_entries
    (h : ∀ old ∈ before.nodes.entries, ∀ new ∈ after.nodes.entries, old.1 = new.1 →
      old.2.content ≠ new.2.content → old.2.state ≠ new.2.state) : ChangesSeen before after :=
  fun p old new hold hnew => h (p, old) (before.nodes.get_eq_some_iff.mp hold) (p, new)
    (after.nodes.get_eq_some_iff.mp hnew) rfl

theorem snapshot_layer_reproduces_iff_replaced_link : Reproduces bareHost firstRoot secondRoot :=
  (snapshot_layer_reproduces_iff bareHost_unpacks (plain_of_entries (by decide))
    (plain_of_entries (by decide)) (changesSeen_of_entries (by decide))).1
    ⟨by decide +kernel, by decide +kernel⟩

def emptyRoot : Stage where
  nodes := OrdMap.empty
  named := by decide
  placed := by decide

def linkedRoot : Stage where
  nodes := ⟨[([[97]], fileNode [1] 0), ([[122]], linkNode [97])], by decide⟩
  named := by decide
  placed := by decide

/-- With its target removed first, a removed link stays. -/
theorem removed_link_kept : bareHost.Unpacks ∧ linkedRoot.Plain ∧ emptyRoot.Plain ∧
    ChangesSeen linkedRoot emptyRoot ∧
    ¬ Reproduces bareHost linkedRoot emptyRoot := by
  refine ⟨bareHost_unpacks, ?_, ?_, ?_, ?_⟩
  · exact plain_of_entries (by decide)
  · exact plain_of_entries (by decide)
  · exact changesSeen_of_entries (by decide)
  · intro h
    obtain ⟨entries, hbuild, happly⟩ := h
    have hentries : buildLayerFromSnapshot emptyRoot (snapshotStageRoot linkedRoot) = .ok
        [⟨[46, 119, 104, 46, 97], .file []⟩, ⟨[46, 119, 104, 46, 122], .file []⟩] := by
      decide +kernel
    rw [hentries] at hbuild
    cases hbuild
    have hkept : (applyLayerTar bareHost linkedRoot.fs
        [⟨[46, 119, 104, 46, 97], .file []⟩, ⟨[46, 119, 104, 46, 122], .file []⟩]).map
          (fun fs => fs [[122]]) = .ok (some (.symlink [97])) := by
      decide +kernel
    rw [happly] at hkept
    revert hkept
    decide

end Ferrocrate.Rootfs
