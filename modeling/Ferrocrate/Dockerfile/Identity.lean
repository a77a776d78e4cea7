import Ferrocrate.Dockerfile.Stage
import Ferrocrate.Lib.Framing
import Ferrocrate.Lib.Tagged
import Ferrocrate.Lib.Text

/-! The identities of stages, by which a checkpoint is found (`dockerfile_build.rs`). -/
namespace Ferrocrate.Dockerfile
open Lib

abbrev Field := String × String

def Field.bytes (field : Field) : Bytes :=
  utf8 field.1 ++ 0 :: (u64Be (UInt64.ofNat field.2.utf8ByteSize) ++ utf8 field.2)

def absent : String := "\x00absent"

def decimal (n : Nat) : String := toString n

def u64Max : Nat := 2 ^ 64 - 1

def flag (value : Bool) : String := if value then "1" else "0"

def ownerText : Option CopyOwner → String
  | none => absent
  | some (.numeric uid gid) => "n:" ++ decimal uid.toNat ++ ":" ++ decimal gid.toNat
  | some (.named user group) => "s:" ++ user ++ ":" ++ group.getD ""

def CopyFromSpec.fields (copy : CopyFromSpec) : List Field :=
  ("cf.from", copy.from_) :: (tagged "cf.src" copy.srcs ++
    [("cf.dest", copy.dest), ("cf.owner", ownerText copy.owner)])

def CopySpec.fields (copy : CopySpec) : List Field :=
  tagged "cp.src" copy.srcs ++
    ("cp.dest", copy.dest) ::
    ("cp.chmod", (copy.chmod.map fun chmod => decimal chmod.toNat).getD absent) ::
    ("cp.owner", ownerText copy.owner) ::
    ("cp.checksum", copy.checksum.getD absent) ::
    ("cp.parents", flag copy.parents) ::
    (tagged "cp.exclude" copy.excludes ++
      [("cp.extract", flag copy.extractArchives), ("cp.inline", copy.inlineContent.getD absent)])

def healthcheckFields : Option HealthcheckSpec → List Field
  | some health => tagged "hc.test" health.test ++
    [("hc.interval", decimal health.intervalNanos.toNat),
      ("hc.timeout", decimal health.timeoutNanos.toNat),
      ("hc.retries", decimal health.retries.toNat),
      ("hc.start_period", decimal health.startPeriodNanos.toNat),
      ("hc.start_interval", decimal health.startIntervalNanos.toNat)]
  | none => [("hc", absent)]

def partsFields (tag : String) : Option (List String) → List Field
  | some parts => tagged tag parts
  | none => [(tag, absent)]

def CacheSharing.text : CacheSharing → String
  | .shared => "shared"
  | .private_ => "private"
  | .locked => "locked"

def optionalU32 (value : Option UInt32) : String :=
  decimal ((value.map UInt32.toNat).getD u64Max)

def CacheMount.fields (mount : CacheMount) : List Field :=
  [("cache.target", mount.target), ("cache.id", mount.id), ("cache.sharing", mount.sharing.text),
    ("cache.uid", optionalU32 mount.uid), ("cache.gid", optionalU32 mount.gid),
    ("cache.mode", optionalU32 mount.mode)]

def SecretMount.fields (mount : SecretMount) : List Field :=
  [("secret.target", mount.target), ("secret.id", mount.id),
    ("secret.env", mount.env.getD absent), ("secret.required", flag mount.required),
    ("secret.uid", decimal mount.uid.toNat), ("secret.gid", decimal mount.gid.toNat),
    ("secret.mode", decimal mount.mode.toNat)]

def SshMount.fields (mount : SshMount) : List Field :=
  [("ssh.target", mount.target), ("ssh.id", mount.id), ("ssh.required", flag mount.required),
    ("ssh.uid", decimal mount.uid.toNat), ("ssh.gid", decimal mount.gid.toNat),
    ("ssh.mode", decimal mount.mode.toNat)]

def TmpfsMount.fields (mount : TmpfsMount) : List Field :=
  [("tmpfs.target", mount.target),
    ("tmpfs.size", decimal ((mount.size.map UInt64.toNat).getD u64Max)),
    ("tmpfs.ro", flag mount.readOnly)]

def BindMount.fields (mount : BindMount) : List Field :=
  [("bind.source", mount.source), ("bind.target", mount.target), ("bind.ro", flag mount.readOnly)]

def networkText : Option DockerfileNetworkMode → String
  | none => "default"
  | some .sandbox => "sandbox"
  | some .none => "none"
  | some .host => "host"

def DockerfileSecurityMode.text : DockerfileSecurityMode → String
  | .sandbox => "sandbox"
  | .insecure => "insecure"

def RunSpec.fields (run : RunSpec) : List Field :=
  tagged "run.arg" run.args ++
    ("run.shell", flag run.shell) ::
    (run.cacheMounts.flatMap CacheMount.fields ++
      (run.secretMounts.flatMap SecretMount.fields ++
        (run.sshMounts.flatMap SshMount.fields ++
          (run.tmpfsMounts.flatMap TmpfsMount.fields ++
            (run.bindMounts.flatMap BindMount.fields ++
              [("run.network", networkText run.network),
                ("run.security", run.security.text)])))))

def pairText (entry : String × String) : String := entry.1 ++ "=" ++ entry.2

def StageSpec.fields (stage : StageSpec) : List Field :=
  ("base", stage.base) ::
  ("name", stage.name.getD absent) ::
  ("cf.after_run_index", decimal (stage.copyFromAfterRunIndex.getD u64Max)) ::
  ((stage.copyFrom ++ stage.copyFromAfterRun).flatMap CopyFromSpec.fields ++
  ((stage.copyPaths ++ stage.copyPathsAfterRun).flatMap CopySpec.fields ++
  (healthcheckFields stage.healthcheck ++
  (tagged "env" stage.env ++
  (tagged "arg" (stage.args.entries.map pairText) ++
  (tagged "label" (stage.labels.entries.map pairText) ++
  ("workdir", stage.workdir.getD absent) ::
  ("user", stage.user.getD absent) ::
  ("stop_signal", stage.stopSignal.getD absent) ::
  ("author", stage.author.getD absent) ::
  (tagged "onbuild" stage.onbuild ++
  (partsFields "entrypoint" stage.entrypoint ++
  (partsFields "cmd" stage.cmd ++
  (tagged "shell" stage.shell ++
  (stage.run.flatMap RunSpec.fields ++
  (tagged "expose" stage.exposedPorts ++
  tagged "volume" stage.volumes))))))))))))

def StageSpec.consumesContext (stage : StageSpec) : Bool :=
  stage.copyPaths ≠ [] || stage.copyPathsAfterRun ≠ [] || stage.copyFrom ≠ []
    || stage.copyFromAfterRun ≠ []

inductive CompressionFormat where
  | none
  | gzip
  | zstd
  deriving DecidableEq

def CompressionFormat.code : CompressionFormat → UInt8
  | .none => 0
  | .gzip => 1
  | .zstd => 2

structure Build where
  stages : List StageSpec
  baseDigests : List String
  contextBindingDigest : String
  dependencies : List (List Nat)
  compression : CompressionFormat

def Build.parents (build : Build) (identities : List String) (index : Nat) :
    Except DockerfileBuildError (List String) :=
  (build.dependencies[index]?.getD []).mapM fun dependency =>
    match identities[dependency]? with
    | some parent => .ok parent
    | none => .error (.invalid "stage dependency graph references a later stage")

def Build.contextFields (build : Build) (stage : StageSpec) : List Field :=
  if stage.consumesContext then [("context", build.contextBindingDigest)] else []

def Build.message (build : Build) (identities : List String) (index : Nat) (stage : StageSpec) :
    Except DockerfileBuildError Bytes := do
  let parents ← build.parents identities index
  pure (utf8 "ferrocrate/stage-identity/v2\x00" ++ build.compression.code ::
    (("base", build.baseDigests[index]?.getD "") ::
      (stage.fields ++ (build.contextFields stage ++ tagged "parent" parents))).flatMap Field.bytes)

section
-- The hash SHAKE256 as a hexadecimal text.
variable (shake256 : Bytes → String)

def stageContentIdentities (build : Build) : Except DockerfileBuildError (List String) :=
  if build.stages.length ≠ build.baseDigests.length
      ∨ build.stages.length ≠ build.dependencies.length then
    .error (.invalid "stage identity inputs must match the stage count")
  else
    build.stages.zipIdx.foldlM (fun identities entry => do
      let buffer ← build.message identities entry.2 entry.1
      pure (identities ++ [shake256 buffer])) []

end

/-! ## Checkpoints -/

structure StageLayer where
  digest : String
  mediaType : String
  size : Int

structure StageCheckpoint where
  buildKey : String
  layerDigest : String
  layerMediaType : String
  layerSize : Int
  contextLayer : Option StageLayer

structure BuiltStage where
  layerDigest : String
  layerMediaType : String
  layerSize : Int
  contextLayer : Option StageLayer

abbrev StageCheckpoints := Nat → Option StageCheckpoint

def StageCheckpoints.insert (checkpoints : StageCheckpoints) (identities : List String)
    (idx : Nat) (output : BuiltStage) : StageCheckpoints :=
  Function.update checkpoints idx (some
    { buildKey := identities[idx]?.getD ""
      layerDigest := output.layerDigest
      layerMediaType := output.layerMediaType
      layerSize := output.layerSize
      contextLayer := output.contextLayer })

def hasSensitiveMounts (stages : List StageSpec) : Bool :=
  stages.any fun stage => stage.run.any fun run => run.secretMounts ≠ [] || run.sshMounts ≠ []

def stageIgnoresCache (stage : StageSpec) : Option (List String) → Bool
  | none => false
  | some names => names.isEmpty ||
    stage.name.any fun name => names.any fun item => item.toLower == name.toLower

-- A build with secrets neither reads nor writes checkpoints.
def StageCheckpoints.restorable (checkpoints : StageCheckpoints) (stages : List StageSpec)
    (identities : List String) (noCache : Option (List String)) (idx : Nat) (stage : StageSpec) :
    Option StageCheckpoint :=
  if hasSensitiveMounts stages then none else
    ((checkpoints idx).filter fun _ => !stageIgnoresCache stage noCache).filter fun checkpoint =>
      some checkpoint.buildKey == identities[idx]?

end Ferrocrate.Dockerfile
