import Ferrocrate.Lib.Loops
import Ferrocrate.Lib.Paths

/-! Applying a layer archive to a root filesystem: `rootfs.rs`.

The tree is a function from the paths under `rootfs_dir` to what is there. What the
operating system and the archive library do beyond it is a `Host`. -/
namespace Ferrocrate.Rootfs
open Lib

inductive Content
  | file (bytes : Bytes)
  | directory
  | symlink (target : Bytes)
  deriving DecidableEq

abbrev Fs := Path → Option Content

namespace Fs

def set (fs : Fs) (path : Path) (content : Content) : Fs :=
  fun q => if q = path then some content else fs q

def unlink (fs : Fs) (path : Path) : Fs := fun q => if q = path then none else fs q

def removeDirAll (fs : Fs) (path : Path) : Fs := fun q => if path <+: q then none else fs q

end Fs

inductive EntryType
  | file (bytes : Bytes)
  | directory
  | symlink (target : Bytes)
  | hardLink (target : Option Bytes)
  deriving DecidableEq

structure Entry where
  path : Bytes
  entryType : EntryType
  deriving DecidableEq

inductive IoError
  | notADirectory (path : Path)
  | other (text : String)
  deriving DecidableEq

inductive RootfsError
  | readLayer (source : IoError)
  | unsafePath (path : Bytes)
  | invalidWhiteoutTarget (fileName : Name)
  | emptyEntry (path : Bytes)
  | missingLinkTarget
  deriving DecidableEq

structure Host where
  leads : Fs → Path → Option Content
  readDir : Fs → Path → List Name
  unpack : Fs → Path → EntryType → Except IoError Fs
  hardLink : Fs → Path → Path → Except IoError Fs

variable (host : Host)

def ociWhiteoutPrefix : Name := [46, 119, 104, 46]

def ociOpaqueWhiteout : Name :=
  [46, 119, 104, 46, 46, 119, 104, 46, 46, 111, 112, 113]

def whiteoutTargetName (fileName : Name) : Except RootfsError (Option Name) :=
  if ociWhiteoutPrefix <+: fileName then
    let target := fileName.drop ociWhiteoutPrefix.length
    match Path.components target with
    | [.normal _] => .ok (some target)
    | _ => .error (.invalidWhiteoutTarget fileName)
  else .ok none

def sanitizeArchivePath (path : Bytes) : Except RootfsError Path :=
  (Path.components path).foldlM (fun cleaned component =>
    match component with
    | .normal part => .ok (cleaned ++ [part])
    | .curDir => .ok cleaned
    | .rootDir | .parentDir => .error (.unsafePath path)) []

def ensureNoSymlinkComponents (fs : Fs) (relPath : Path) : Except RootfsError Unit :=
  relPath.dropLast.inits.tail.forM fun current =>
    match fs current with
    | some (.symlink _) => .error (.unsafePath (Path.join relPath))
    | _ => .ok ()

def pathExists (fs : Fs) (path : Path) : Bool :=
  match fs path with
  | none => false
  | some (.symlink _) => (host.leads fs path).isSome
  | some _ => true

def isDir (fs : Fs) (path : Path) : Bool :=
  match fs path with
  | some (.symlink _) => host.leads fs path = some .directory
  | content => content = some .directory

def mkdir (fs : Fs) (path : Path) : Except IoError Fs :=
  if fs path = none then .ok (fs.set path .directory)
  else if isDir host fs path then .ok fs
  else .error (.notADirectory path)

def createDirAll (fs : Fs) (path : Path) : Except IoError Fs := path.inits.foldlM (mkdir host) fs

def removePathIfExists (fs : Fs) (path : Path) : Fs :=
  if pathExists host fs path then
    match fs path with
    | some .directory => fs.removeDirAll path
    | _ => fs.unlink path
  else fs

def clearDirectory (fs : Fs) (dir : Path) : Except RootfsError Fs :=
  if pathExists host fs dir then
    if isDir host fs dir then
      .ok ((host.readDir fs dir).foldl
        (fun fs name => removePathIfExists host fs (dir ++ [name])) fs)
    else .error (.readLayer (.notADirectory dir))
  else .ok fs

def applyHardLinkEntry (fs : Fs) (target : Option Bytes) (destination : Path) :
    Except RootfsError Fs := do
  match target with
  | none => throw .missingLinkTarget
  | some link =>
    let linkTarget ← sanitizeArchivePath link
    ensureNoSymlinkComponents fs linkTarget
    let fs := removePathIfExists host fs destination
    (host.hardLink fs linkTarget destination).mapError .readLayer

def fileName (path : Path) : Name := (path.getLast?.bind Path.toStr).getD []

def applyEntry (fs : Fs) (entry : Entry) : Except RootfsError Fs := do
  let normalized ← sanitizeArchivePath entry.path
  let parent := normalized.dropLast
  if fileName normalized = ociOpaqueWhiteout then do
    ensureNoSymlinkComponents fs normalized
    clearDirectory host fs parent
  else
    match ← whiteoutTargetName (fileName normalized) with
    | some targetName =>
      ensureNoSymlinkComponents fs normalized
      pure (removePathIfExists host fs (parent ++ [targetName]))
    | none =>
      if entry.entryType = .directory then do
        ensureNoSymlinkComponents fs normalized
        (createDirAll host fs normalized).mapError .readLayer
      else if normalized = [] then
        throw (.emptyEntry entry.path)
      else do
        ensureNoSymlinkComponents fs normalized
        let fs ← (createDirAll host fs parent).mapError .readLayer
        match entry.entryType with
        | .hardLink target => applyHardLinkEntry host fs target normalized
        | entryType => (host.unpack fs normalized entryType).mapError .readLayer

def applyLayerTar (fs : Fs) (entries : List Entry) : Except RootfsError Fs :=
  entries.foldlM (applyEntry host) fs

variable {path : Path}

theorem sanitizeArchivePath_join (hne : path ≠ [])
    (h : ∀ name ∈ path, Path.ValidName name) :
    sanitizeArchivePath (Path.join path) = .ok path := by
  have hgeneral : ∀ (rest cleaned : Path), (rest.map Component.normal).foldlM
      (fun cleaned component =>
        match component with
        | .normal part => Except.ok (cleaned ++ [part])
        | .curDir => .ok cleaned
        | .rootDir | .parentDir => .error (RootfsError.unsafePath (Path.join path))) cleaned =
      .ok (cleaned ++ rest) := by
    intro rest
    induction rest with
    | nil => simp [pure, Except.pure]
    | cons name rest ih =>
      intro cleaned
      have hnext := ih (cleaned ++ [name])
      rw [List.append_assoc, List.singleton_append] at hnext
      exact hnext
  rw [sanitizeArchivePath, Path.components_join hne h]
  exact hgeneral path []

variable {fs : Fs}

theorem ensureNoSymlinkComponents_ok {relPath : Path}
    (h : ∀ a, a <+: relPath.dropLast → ∀ target, fs a ≠ some (.symlink target)) :
    ensureNoSymlinkComponents fs relPath = .ok () := by
  refine Except.forM_ok fun current hcurrent => ?_
  have hu : current <+: relPath.dropLast :=
    (List.mem_inits _ _).mp (List.mem_of_mem_tail hcurrent)
  have hnot := h current hu
  split
  · rename_i target heq
    exact absurd heq (hnot target)
  · rfl

theorem ociWhiteoutPrefix_ascii : ∀ b ∈ ociWhiteoutPrefix, b < 0x80 := by decide +kernel

variable {name : Name}

theorem validName_whiteout (h : Path.ValidName name) :
    Path.ValidName (ociWhiteoutPrefix ++ name) where
  nonempty := by simp [ociWhiteoutPrefix]
  no_slash := by simpa [ociWhiteoutPrefix, Path.slash] using h.no_slash
  not_dot := by simp [ociWhiteoutPrefix]
  not_dots := by simp [ociWhiteoutPrefix]

theorem fileName_append_singleton
    (h : Path.toStringLossy name = name) : fileName (path ++ [name]) = name := by
  simp [fileName, Path.toStr, h]

theorem whiteoutTargetName_whiteout (h : Path.ValidName name) :
    whiteoutTargetName (ociWhiteoutPrefix ++ name) = .ok (some name) := by
  rw [whiteoutTargetName, if_pos (List.prefix_append _ _), List.drop_left]
  simp only [Path.components_of_valid h]

theorem whiteoutTargetName_plain {fileName : Name} (h : ¬ ociWhiteoutPrefix <+: fileName) :
    whiteoutTargetName fileName = .ok none := if_neg h

theorem fileName_plain (h : ∀ name ∈ path, ¬ ociWhiteoutPrefix <+: name) :
    ¬ ociWhiteoutPrefix <+: fileName path := by
  rw [fileName]
  cases hlast : path.getLast? with
  | none => simp [ociWhiteoutPrefix]
  | some name =>
    by_cases hutf8 : Path.toStringLossy name = name
    · simpa [Path.toStr, hutf8] using h name (List.mem_of_getLast? hlast)
    · simp [Path.toStr, hutf8, ociWhiteoutPrefix]

theorem ne_ociOpaqueWhiteout {fileName : Name} (h : ¬ ociWhiteoutPrefix <+: fileName) :
    fileName ≠ ociOpaqueWhiteout := by
  intro heq
  exact h (heq ▸ by decide)

variable {parent : Path}

theorem applyEntry_whiteout_eq (entryType : EntryType)
    (hvalid : ∀ n ∈ parent ++ [name], Path.ValidName n) (hutf8 : Path.toStringLossy name = name)
    (hplain : ¬ ociWhiteoutPrefix <+: name) :
    applyEntry host fs ⟨Path.join (parent ++ [ociWhiteoutPrefix ++ name]), entryType⟩ =
      (ensureNoSymlinkComponents fs (parent ++ [ociWhiteoutPrefix ++ name])).bind fun _ =>
        .ok (removePathIfExists host fs (parent ++ [name])) := by
  have hname : Path.ValidName name := hvalid name (by simp)
  have hall : ∀ n ∈ parent ++ [ociWhiteoutPrefix ++ name], Path.ValidName n := by
    intro n hn
    cases List.mem_append.mp hn with
    | inl hn => exact hvalid n (List.mem_append_left _ hn)
    | inr hn => exact List.mem_singleton.mp hn ▸ validName_whiteout hname
  have hlossy : Path.toStringLossy (ociWhiteoutPrefix ++ name) = ociWhiteoutPrefix ++ name := by
    rw [Path.toStringLossy_append ociWhiteoutPrefix_ascii, hutf8]
  have hnotOpaque : ociWhiteoutPrefix ++ name ≠ ociOpaqueWhiteout := by
    intro heq
    have htail : name = [46, 119, 104, 46, 46, 111, 112, 113] := List.append_cancel_left heq
    exact hplain (htail ▸ by decide)
  rw [applyEntry, sanitizeArchivePath_join (by simp) hall]
  change (if fileName (parent ++ [ociWhiteoutPrefix ++ name]) = ociOpaqueWhiteout then _ else _) = _
  rw [fileName_append_singleton hlossy, if_neg hnotOpaque, whiteoutTargetName_whiteout hname]
  change (ensureNoSymlinkComponents fs (parent ++ [ociWhiteoutPrefix ++ name]) >>= _) = _
  rw [List.dropLast_concat]
  rfl

theorem applyEntry_whiteout (entryType : EntryType)
    (hvalid : ∀ n ∈ parent ++ [name], Path.ValidName n) (hutf8 : Path.toStringLossy name = name)
    (hplain : ¬ ociWhiteoutPrefix <+: name)
    (hdirs : ∀ a, a <+: parent → ∀ target, fs a ≠ some (.symlink target)) :
    applyEntry host fs ⟨Path.join (parent ++ [ociWhiteoutPrefix ++ name]), entryType⟩ =
      .ok (removePathIfExists host fs (parent ++ [name])) := by
  have hensure : ensureNoSymlinkComponents fs (parent ++ [ociWhiteoutPrefix ++ name]) = .ok () :=
    ensureNoSymlinkComponents_ok (by simpa using hdirs)
  rw [applyEntry_whiteout_eq host entryType hvalid hutf8 hplain, hensure]
  rfl

theorem createDirAll_of_directories
    (hdirs : ∀ a, a <+: path → fs a = some .directory) : createDirAll host fs path = .ok fs := by
  have hgeneral : ∀ steps : List Path, (∀ a ∈ steps, fs a = some .directory) →
      steps.foldlM (mkdir host) fs = .ok fs := by
    intro steps hsteps
    induction steps with
    | nil => rfl
    | cons a steps ih =>
      have ha : fs a = some .directory := hsteps a (List.mem_cons_self ..)
      have hmkdir : mkdir host fs a = .ok fs := by simp [mkdir, isDir, ha]
      rw [List.foldlM_cons, hmkdir]
      exact ih fun b hb => hsteps b (List.mem_cons_of_mem _ hb)
  exact hgeneral path.inits fun a ha => hdirs a ((List.mem_inits _ _).mp ha)

theorem createDirAll_append_singleton (name : Name)
    (hdirs : ∀ a, a <+: parent → fs a = some .directory) :
    createDirAll host fs (parent ++ [name]) = mkdir host fs (parent ++ [name]) := by
  have hparent := createDirAll_of_directories host hdirs
  have hsplit : (parent ++ [name]).inits = parent.inits ++ [parent ++ [name]] := by
    simp [List.inits_append]
  rw [createDirAll] at hparent ⊢
  rw [hsplit, List.foldlM_append, hparent]
  exact bind_pure (mkdir host fs (parent ++ [name]))

theorem applyEntry_plain (entryType : EntryType) (hne : path ≠ [])
    (hvalid : ∀ n ∈ path, Path.ValidName n) (hplain : ∀ n ∈ path, ¬ ociWhiteoutPrefix <+: n)
    (hdirs : ∀ a, a <+: path.dropLast → fs a = some .directory) :
    applyEntry host fs ⟨Path.join path, entryType⟩ =
      if entryType = .directory then (createDirAll host fs path).mapError .readLayer
      else match entryType with
        | .hardLink target => applyHardLinkEntry host fs target path
        | entryType => (host.unpack fs path entryType).mapError .readLayer := by
  have hname := fileName_plain hplain
  have hensure : ensureNoSymlinkComponents fs path = .ok () :=
    ensureNoSymlinkComponents_ok fun a ha target => by simp [hdirs a ha]
  have hparent : createDirAll host fs path.dropLast = .ok fs :=
    createDirAll_of_directories host hdirs
  rw [applyEntry, sanitizeArchivePath_join hne hvalid]
  change (if fileName path = ociOpaqueWhiteout then _ else _) = _
  rw [if_neg (ne_ociOpaqueWhiteout hname), whiteoutTargetName_plain hname]
  change (if entryType = .directory then _ else if path = [] then _ else _) = _
  by_cases hdirectory : entryType = .directory
  · rw [if_pos hdirectory, if_pos hdirectory, hensure]
    rfl
  · rw [if_neg hdirectory, if_neg hdirectory, if_neg hne, hensure, hparent]
    rfl

theorem removePathIfExists_frame {host : Host} {p q : Path} (h : ¬ p <+: q) :
    removePathIfExists host fs p q = fs q := by
  have hne : q ≠ p := fun heq => h (heq ▸ List.prefix_rfl)
  rw [removePathIfExists]
  by_cases hthere : pathExists host fs p = true
  · rw [if_pos hthere]
    cases hp : fs p with
    | none => exact if_neg hne
    | some content =>
      cases content with
      | file bytes => exact if_neg hne
      | directory => exact if_neg h
      | symlink target => exact if_neg hne
  · rw [if_neg hthere]

theorem createDirAll_keeps {host : Host} {fs fs' : Fs} {p q : Path}
    (h : createDirAll host fs p = .ok fs') (hq : fs q ≠ none) : fs' q = fs q := by
  have hgeneral : ∀ (steps : List Path) (fs : Fs), fs q ≠ none →
      steps.foldlM (mkdir host) fs = .ok fs' → fs' q = fs q := by
    intro steps
    induction steps with
    | nil =>
      intro fs _ h
      cases h
      rfl
    | cons a steps ih =>
      intro fs hq h
      rw [List.foldlM_cons] at h
      obtain ⟨next, hstep, hrest⟩ := Except.bind_eq_ok.mp h
      rw [mkdir] at hstep
      split at hstep
      · rename_i hnone
        cases hstep
        have hne : q ≠ a := fun heq => hq (heq ▸ hnone)
        have hsame : (fs.set a .directory) q = fs q := if_neg hne
        rw [ih _ (by rwa [hsame]) hrest, hsame]
      · split at hstep
        · cases hstep
          exact ih fs hq hrest
        · cases hstep
  exact hgeneral p.inits fs hq h


end Ferrocrate.Rootfs
