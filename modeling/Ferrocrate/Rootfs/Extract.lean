import Ferrocrate.Lib.PlainPaths
import Ferrocrate.Rootfs.Apply

/-! Applying layer archives on a whole machine: `rootfs.rs` with every path resolved in a file
system of inodes. `rootfs_dir` is a directory of it. -/
namespace Ferrocrate.Rootfs.Machine
open Lib Lib.Program Lib.FileSystem

inductive EntryType where
  | directory
  | hardLink (target : Option Bytes)
  | unpacked (kind : UInt8) (link content : Bytes)
deriving DecidableEq

structure Entry where
  path : Bytes
  entryType : EntryType

/-- The order in which a directory is listed, hard links the system refuses (across filesystems),
and `Entry::unpack`. -/
structure Host where
  readDir : FileSystem → Inode → List Name
  refuses : FileSystem → Resolved → Resolved → Bool
  unpack : FileSystem → Inode → Path → EntryType → Except IoError Unit × FileSystem

abbrev Extraction (α : Type) := Program RootfsError FileSystem α

variable (host : Host) (top : Inode)

def checked {α : Type} (check : FileSystem → Except RootfsError α) : Extraction α :=
  fun fs => (check fs, fs)

def ensureNoSymlinkComponents (relPath : Path) (fs : FileSystem) : Except RootfsError Unit :=
  relPath.dropLast.inits.tail.forM fun current =>
    if (fs.lstat top current).inode.any fs.isSymlink then .error (.unsafePath (Path.join relPath))
    else .ok ()

def pathExists (fs : FileSystem) (path : Path) : Bool := (fs.stat top path).inode.isSome

def isDir (fs : FileSystem) (path : Path) : Bool := (fs.stat top path).inode.any fs.isDirectory

def mkdir (path : Path) : Extraction Unit := fun fs =>
  match fs.lstat top path with
  | .named d name none => (.ok (), fs.add d name (.directory d fun _ => none))
  | _ =>
    if isDir top fs path then (.ok (), fs) else (.error (.readLayer (.notADirectory path)), fs)

def createDirAll (path : Path) : Extraction Unit := path.inits.forM (mkdir top)

def removed (path : Path) (fs : FileSystem) : FileSystem :=
  if pathExists top fs path then fs.unlink (fs.lstat top path) else fs

def removePathIfExists (path : Path) : Extraction Unit := modify (removed top path)

def clearDirectory (dir : Path) : Extraction Unit := do
  let fs ← get
  if pathExists top fs dir then
    match (fs.stat top dir).inode with
    | some i =>
      if fs.isDirectory i then
        (host.readDir fs i).forM fun name => removePathIfExists top (dir ++ [name])
      else throw (.readLayer (.notADirectory dir))
    | none => pure ()

def hardLink (source target : Resolved) (fs : FileSystem) : Option FileSystem :=
  if host.refuses fs source target then none else fs.hardLink source target

def applyHardLinkEntry (target : Option Bytes) (destination : Path) : Extraction Unit := do
  match target with
  | none => throw .missingLinkTarget
  | some link =>
    let linkTarget ← checked fun _ => sanitizeArchivePath link
    checked (ensureNoSymlinkComponents top linkTarget)
    removePathIfExists top destination
    let fs ← get
    match hardLink host (fs.lstat top linkTarget) (fs.lstat top destination) fs with
    | some fs' => set fs'
    | none =>
      match fs.copy (fs.stat top linkTarget) (fs.stat top destination) with
      | some fs' => set fs'
      | none => throw (.readLayer (.other "copy"))

def unpack (destination : Path) (entryType : EntryType) : Extraction Unit := fun fs =>
  match host.unpack fs top destination entryType with
  | (.ok (), fs') => (.ok (), fs')
  | (.error e, fs') => (.error (.readLayer e), fs')

def applyEntry (entry : Entry) : Extraction Unit := do
  let normalized ← checked fun _ => sanitizeArchivePath entry.path
  let parent := normalized.dropLast
  if fileName normalized = ociOpaqueWhiteout then
    checked (ensureNoSymlinkComponents top normalized)
    clearDirectory host top parent
  else
    match ← checked fun _ => whiteoutTargetName (fileName normalized) with
    | some targetName =>
      checked (ensureNoSymlinkComponents top normalized)
      removePathIfExists top (parent ++ [targetName])
    | none =>
      if entry.entryType = .directory then
        checked (ensureNoSymlinkComponents top normalized)
        createDirAll top normalized
      else if normalized = [] then throw (.emptyEntry entry.path)
      else
        checked (ensureNoSymlinkComponents top normalized)
        createDirAll top parent
        match entry.entryType with
        | .hardLink target => applyHardLinkEntry host top target normalized
        | entryType => unpack host top normalized entryType

def applyLayerTar (entries : List Entry) : Extraction Unit := entries.forM (applyEntry host top)

def constructRootfs (layers : List (List Entry)) : Extraction Unit :=
  layers.forM (applyLayerTar host top)

def replaceConflict (entry : Entry) : Extraction Unit := do
  let normalized ← checked fun _ => sanitizeArchivePath entry.path
  let fs ← get
  match (fs.lstat top normalized).inode with
  | none => pure ()
  | some i =>
    if normalized = [] ∨ (entry.entryType = .directory ↔ fs.isDirectory i = true) then pure ()
    else
      checked (ensureNoSymlinkComponents top normalized)
      set (fs.unlink (fs.lstat top normalized))

def applyContainerArchiveWithReplace (entries : List Entry) : Extraction Unit := do
  entries.forM (replaceConflict top)
  applyLayerTar host top entries

end Ferrocrate.Rootfs.Machine
