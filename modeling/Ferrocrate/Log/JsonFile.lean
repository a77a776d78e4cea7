import Ferrocrate.Lib.Framing
import Ferrocrate.Lib.Text
import Mathlib.Logic.Function.Basic

/-! The json-file log driver (`log_driver.rs`): a stream is a log file with a journal of offsets
and times beside it, and both are rotated as a pair. -/
namespace Ferrocrate.Log
open Lib

structure LogEntry where
  timestampNanos : Nat
  bytes : Bytes

structure LogRotation where
  maxSize : UInt64
  maxFiles : UInt32

abbrev Directory := String → Option Bytes

def journalPath (path : String) : String := path ++ ".ts"

def rotatedPath (path : String) (index : Nat) : String := path ++ "." ++ toString index

namespace Directory
variable (d : Directory)

def openLogFile (path : String) (append : Bool) : Directory :=
  Function.update d path (some (if append then (d path).getD [] else []))

def removeFile (path : String) : Directory := Function.update d path none

def rename (source target : String) : Directory :=
  Function.update (Function.update d target (d source)) source none

def renameIfExists (source target : String) : Directory :=
  if (d source).isSome then d.rename source target else d

def writeAll (path : String) (bytes : Bytes) : Directory :=
  Function.update d path ((d path).map (· ++ bytes))

def removePair (path : String) : Directory := (d.removeFile path).removeFile (journalPath path)

def renamePair (source target : String) : Directory :=
  (d.renameIfExists source target).renameIfExists (journalPath source) (journalPath target)

def rotatePair (path : String) (maxFiles : Nat) : Directory :=
  if maxFiles < 2 then d
  else
    let oldest := maxFiles - 1
    let d := d.removePair (rotatedPath path oldest)
    let d := (List.range' 1 (oldest - 1)).reverse.foldl
      (fun d index => d.renamePair (rotatedPath path index) (rotatedPath path (index + 1))) d
    d.renamePair path (rotatedPath path 1)

def readRotated (path : String) : Bytes :=
  ((List.range' 1 64).reverse.flatMap fun index => (d (rotatedPath path index)).getD [])
    ++ (d path).getD []

end Directory

structure JsonFileStream where
  path : String
  offset : Nat
  rotation : Option LogRotation

namespace JsonFileStream

def opened (path : String) (append : Bool) (rotation : Option LogRotation) (d : Directory) :
    JsonFileStream × Directory :=
  let d := (d.openLogFile path append).openLogFile (journalPath path) append
  (⟨path, ((d path).getD []).length, rotation⟩, d)

def journalLine (offset : Nat) (entry : LogEntry) : Bytes :=
  utf8 (toString offset ++ " " ++ toString entry.timestampNanos ++ "\n")

variable (s : JsonFileStream) (entry : LogEntry) (d : Directory)

def exceeds (rotation : LogRotation) : Bool :=
  let current := ((d s.path).getD []).length
  0 < current ∧ rotation.maxSize.toNat < current + entry.bytes.length

def rotated : JsonFileStream × Directory :=
  match s.rotation with
  | none => (s, d)
  | some rotation =>
    if s.exceeds entry d rotation then
      ({ s with offset := 0 }, ((d.rotatePair s.path rotation.maxFiles.toNat).openLogFile s.path
        true).openLogFile (journalPath s.path) true)
    else (s, d)

def write : JsonFileStream × Directory :=
  if entry.bytes = [] then (s, d)
  else
    let (s, d) := s.rotated entry d
    let d := d.writeAll s.path entry.bytes
    let d := d.writeAll (journalPath s.path) (journalLine s.offset entry)
    ({ s with offset := s.offset + entry.bytes.length }, d)

end JsonFileStream
end Ferrocrate.Log
