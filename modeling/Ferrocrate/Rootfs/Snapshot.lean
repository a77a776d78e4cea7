import Ferrocrate.Rootfs.Apply
import Ferrocrate.Lib.OrdMap

/-! The layer a build step leaves: what changed between two states of the stage root,
`dockerfile_build.rs`. Compression of the archive is left out. -/
namespace Ferrocrate.Rootfs
open Lib
open scoped Lib.Path

inductive StagePathKind
  | file | directory | symlink | other
  deriving DecidableEq

structure StagePathState where
  size : UInt64
  modified : Option Int
  mode : UInt32
  kind : StagePathKind
  symlinkTarget : Option Bytes
  deriving DecidableEq

structure Node where
  content : Content
  size : UInt64
  modified : Option Int
  mode : UInt32
  deriving DecidableEq

def Content.kind : Content → StagePathKind
  | .file _ => .file
  | .directory => .directory
  | .symlink _ => .symlink

def Content.linkTarget : Content → Option Bytes
  | .symlink target => some target
  | _ => none

def Node.state (node : Node) : StagePathState where
  size := node.size
  modified := node.modified
  mode := node.mode
  kind := node.content.kind
  symlinkTarget := node.content.linkTarget

structure Stage where
  nodes : OrdMap Path Node
  named : ∀ e ∈ nodes.entries, e.1 ≠ [] ∧ ∀ name ∈ e.1, Path.ValidName name
  placed : ∀ e ∈ nodes.entries, e.1.dropLast = [] ∨
    ∃ dir ∈ nodes.entries, dir.1 = e.1.dropLast ∧ dir.2.content = .directory

namespace Stage

theorem names (stage : Stage) (p : Path) (node : Node) (h : stage.nodes.get p = some node) :
    p ≠ [] ∧ ∀ name ∈ p, Path.ValidName name :=
  stage.named (p, node) (stage.nodes.get_eq_some_iff.mp h)

theorem parents (stage : Stage) (p : Path) (name : Name) (node : Node)
    (h : stage.nodes.get (p ++ [name]) = some node) (hp : p ≠ []) :
    ∃ dir, stage.nodes.get p = some dir ∧ dir.content = .directory := by
  have hplaced := stage.placed (p ++ [name], node) (stage.nodes.get_eq_some_iff.mp h)
  rw [List.dropLast_concat] at hplaced
  obtain ⟨dir, hmem, heq, hcontent⟩ := hplaced.resolve_left hp
  exact ⟨dir.2, stage.nodes.get_eq_some_iff.mpr (heq ▸ hmem), hcontent⟩

def fs (stage : Stage) : Fs :=
  fun q => if q = [] then some .directory else (stage.nodes.get q).map Node.content

end Stage

def snapshotStageRoot (root : Stage) : OrdMap Path StagePathState := root.nodes.map Node.state

inductive BuildError
  | invalid (text : String)
  | io (path : Path)
  deriving DecidableEq

def appendWhiteout (path : Path) : Except BuildError Entry :=
  match path.getLast? with
  | none => .error (.invalid "cannot whiteout stage root")
  | some name =>
    .ok {
      path := Path.join (path.dropLast ++ [ociWhiteoutPrefix ++ Path.toStringLossy name])
      entryType := .file [] }

def appendStagePath (root : Stage) (relative : Path) (state : StagePathState) :
    Except BuildError (List Entry) :=
  match state.kind with
  | .file =>
    match root.fs relative with
    | some (.file bytes) => .ok [⟨Path.join relative, .file bytes⟩]
    | _ => .error (.io relative)
  | .directory => .ok [⟨Path.join relative, .directory⟩]
  | .symlink => .ok [⟨Path.join relative, .symlink (state.symlinkTarget.getD [])⟩]
  | .other => .ok []

def topLevelDeletion (before after : OrdMap Path StagePathState) (path : Path) : Bool :=
  !after.contains path && !before.keys.any fun ancestor =>
    decide (ancestor ≠ path) && ancestor.isPrefixOf path && !after.contains ancestor

def kindChanged (old : Option StagePathState) (state : StagePathState) : Bool :=
  old.any fun old => decide (old.kind ≠ state.kind)

def appendChange (root : Stage) (before : OrdMap Path StagePathState)
    (change : Path × StagePathState) : Except BuildError (List Entry) :=
  if before.get change.1 = some change.2 then .ok []
  else do
    let whiteout ← if kindChanged (before.get change.1) change.2
      then (appendWhiteout change.1).map fun entry => [entry]
      else pure []
    let staged ← appendStagePath root change.1 change.2
    pure (whiteout ++ staged)

def buildLayerFromSnapshot (root : Stage) (before : OrdMap Path StagePathState) :
    Except BuildError (List Entry) := do
  let after := snapshotStageRoot root
  let whiteouts ← (before.keys.filter (topLevelDeletion before after)).mapM appendWhiteout
  let changes ← after.entries.mapM (appendChange root before)
  pure (whiteouts ++ changes.flatten)

def deletions (before after : Stage) : List Path :=
  before.nodes.keys.filter
    (topLevelDeletion (snapshotStageRoot before) (snapshotStageRoot after))

def whiteoutEntry (path : Path) : Entry where
  path := Path.join
    (path.dropLast ++ [ociWhiteoutPrefix ++ Path.toStringLossy (path.getLast?.getD [])])
  entryType := .file []

def Content.entryType : Content → EntryType
  | .file bytes => .file bytes
  | .directory => .directory
  | .symlink target => .symlink target

def changeEntries (before : Stage) (change : Path × Node) : List Entry :=
  let old := (snapshotStageRoot before).get change.1
  if old = some change.2.state then []
  else (if kindChanged old change.2.state then [whiteoutEntry change.1] else []) ++
    [⟨Path.join change.1, change.2.content.entryType⟩]

variable {path : Path}

theorem appendWhiteout_eq (h : path ≠ []) :
    appendWhiteout path = .ok (whiteoutEntry path) := by
  cases hlast : path.getLast? with
  | none => exact absurd (List.getLast?_eq_none_iff.mp hlast) h
  | some name => simp [appendWhiteout, whiteoutEntry, hlast]

theorem Stage.fs_of_get {stage : Stage} {node : Node}
    (h : stage.nodes.get path = some node) : stage.fs path = some node.content := by
  rw [Stage.fs, if_neg (stage.names path node h).1, h]
  rfl

theorem appendStagePath_eq {root : Stage} {node : Node}
    (h : root.nodes.get path = some node) :
    appendStagePath root path node.state = .ok [⟨Path.join path, node.content.entryType⟩] := by
  have hfs := Stage.fs_of_get h
  obtain ⟨content, size, modified, mode⟩ := node
  cases content with
  | file bytes => simp [appendStagePath, Node.state, Content.kind, Content.entryType, hfs]
  | directory => rfl
  | symlink target => rfl

theorem buildLayerFromSnapshot_eq (before after : Stage) :
    buildLayerFromSnapshot after (snapshotStageRoot before) =
      .ok ((deletions before after).map whiteoutEntry ++
        (after.nodes.entries.map (changeEntries before)).flatten) := by
  have hwhiteouts : (deletions before after).mapM appendWhiteout =
      .ok ((deletions before after).map whiteoutEntry) := by
    refine Except.mapM_ok fun path hpath => appendWhiteout_eq ?_
    have hthere := before.nodes.mem_keys_iff.mp (List.mem_filter.mp hpath).1
    obtain ⟨node, hnode⟩ := Option.ne_none_iff_exists'.mp hthere
    exact (before.names path node hnode).1
  have hchanges : (snapshotStageRoot after).entries.mapM
      (appendChange after (snapshotStageRoot before)) =
      .ok (after.nodes.entries.map (changeEntries before)) := by
    have hentries : (snapshotStageRoot after).entries =
        after.nodes.entries.map fun change => (change.1, change.2.state) := rfl
    rw [hentries, List.mapM_map]
    refine Except.mapM_ok fun change hchange => ?_
    have hget : after.nodes.get change.1 = some change.2 :=
      after.nodes.get_eq_some_iff.mpr hchange
    have hstage := appendStagePath_eq hget
    have hne := (after.names _ _ hget).1
    simp only [Function.comp, appendChange, changeEntries]
    split
    · rfl
    · rw [hstage]
      split
      · rw [appendWhiteout_eq hne]
        rfl
      · rfl
  have hkeys : (snapshotStageRoot before).keys = before.nodes.keys := OrdMap.keys_map ..
  rw [buildLayerFromSnapshot, hkeys]
  change ((deletions before after).mapM appendWhiteout >>= fun whiteouts =>
    (snapshotStageRoot after).entries.mapM (appendChange after (snapshotStageRoot before)) >>=
      fun changes => pure (whiteouts ++ changes.flatten)) = _
  rw [hwhiteouts, hchanges]
  rfl

end Ferrocrate.Rootfs
