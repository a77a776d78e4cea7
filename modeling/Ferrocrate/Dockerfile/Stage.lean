import Ferrocrate.Lib.OrdMap
import Mathlib.Data.UInt

/-! A stage of a Dockerfile as the parser leaves it (`dockerfile_build.rs`). -/
namespace Ferrocrate.Dockerfile
open Lib

inductive DockerfileBuildError where
  | invalid (message : String)
  | unsupported (message : String)
  deriving DecidableEq

inductive CopyOwner where
  | numeric (uid gid : UInt32)
  | named (user : String) (group : Option String)
  deriving DecidableEq

structure CopyFromSpec where
  from_ : String
  srcs : List String
  dest : String
  owner : Option CopyOwner
  deriving DecidableEq

structure CopySpec where
  srcs : List String
  dest : String
  chmod : Option UInt32
  owner : Option CopyOwner
  checksum : Option String
  parents : Bool
  excludes : List String
  extractArchives : Bool
  inlineContent : Option String
  deriving DecidableEq

structure HealthcheckSpec where
  test : List String
  intervalNanos : UInt64
  timeoutNanos : UInt64
  retries : UInt32
  startPeriodNanos : UInt64
  startIntervalNanos : UInt64
  deriving DecidableEq

inductive CacheSharing where
  | shared
  | private_
  | locked
  deriving DecidableEq

structure CacheMount where
  target : String
  id : String
  sharing : CacheSharing
  uid : Option UInt32
  gid : Option UInt32
  mode : Option UInt32
  deriving DecidableEq

structure SecretMount where
  target : String
  id : String
  env : Option String
  required : Bool
  uid : UInt32
  gid : UInt32
  mode : UInt32
  deriving DecidableEq

structure SshMount where
  target : String
  id : String
  required : Bool
  uid : UInt32
  gid : UInt32
  mode : UInt32
  deriving DecidableEq

structure TmpfsMount where
  target : String
  size : Option UInt64
  readOnly : Bool
  deriving DecidableEq

structure BindMount where
  source : String
  target : String
  readOnly : Bool
  deriving DecidableEq

inductive DockerfileNetworkMode where
  | sandbox
  | none
  | host
  deriving DecidableEq

inductive DockerfileSecurityMode where
  | sandbox
  | insecure
  deriving DecidableEq

structure RunSpec where
  args : List String
  shell : Bool
  cacheMounts : List CacheMount
  secretMounts : List SecretMount
  sshMounts : List SshMount
  tmpfsMounts : List TmpfsMount
  bindMounts : List BindMount
  network : Option DockerfileNetworkMode
  security : DockerfileSecurityMode
  deriving DecidableEq

structure StageSpec where
  base : String
  name : Option String
  copyFrom : List CopyFromSpec
  copyFromAfterRun : List CopyFromSpec
  copyFromAfterRunIndex : Option Nat
  copyPaths : List CopySpec
  copyPathsAfterRun : List CopySpec
  copyPathsAfterRunIndex : Option Nat
  healthcheck : Option HealthcheckSpec
  env : List String
  args : OrdMap String String
  labels : OrdMap String String
  workdir : Option String
  user : Option String
  stopSignal : Option String
  author : Option String
  onbuild : List String
  entrypoint : Option (List String)
  cmd : Option (List String)
  shell : List String
  run : List RunSpec
  exposedPorts : List String
  volumes : List String
  deriving DecidableEq

def StageSpec.start (base : String) (name : Option String) (globalArgs : OrdMap String String) :
    StageSpec where
  base := base
  name := name
  copyFrom := []
  copyFromAfterRun := []
  copyFromAfterRunIndex := none
  copyPaths := []
  copyPathsAfterRun := []
  copyPathsAfterRunIndex := none
  healthcheck := none
  env := []
  args := globalArgs
  labels := .empty
  workdir := none
  user := none
  stopSignal := none
  author := none
  onbuild := []
  entrypoint := none
  cmd := none
  shell := ["/bin/sh", "-c"]
  run := []
  exposedPorts := []
  volumes := []

end Ferrocrate.Dockerfile
