import Ferrocrate.Dockerfile.Stage
import Ferrocrate.Lib.Lanes
import Ferrocrate.Lib.Text

/-! Reading the instructions of a stage body (`parse_stages_with_build_args` of
`dockerfile_build.rs`). -/
namespace Ferrocrate.Dockerfile
open Lib

def invalid {α : Type} (message : String) : Except DockerfileBuildError α :=
  .error (.invalid message)

def isVariableChar (c : Char) : Bool := c.isAlphanum || c = '_'

def interpolateChars (lookup : String → Option String) : List Char → List Char
  | [] => []
  | '\\' :: '$' :: rest => '$' :: interpolateChars lookup rest
  | '$' :: '\x7b' :: rest =>
    ((lookup (String.ofList (rest.takeWhile (· ≠ '\x7d')))).getD "").toList
      ++ interpolateChars lookup ((rest.dropWhile (· ≠ '\x7d')).drop 1)
  | '$' :: c :: rest =>
    if isVariableChar c then
      ((lookup (String.ofList (c :: rest.takeWhile isVariableChar))).getD "").toList
        ++ interpolateChars lookup (rest.dropWhile isVariableChar)
    else '$' :: interpolateChars lookup (c :: rest)
  | c :: rest => c :: interpolateChars lookup rest
termination_by text => text.length
decreasing_by
  all_goals simp only [List.length_cons, List.length_drop]
  all_goals first
    | omega
    | have := (List.dropWhile_sublist (fun c => decide (c ≠ '\x7d')) (l := rest)).length_le; omega
    | have := (List.dropWhile_sublist isVariableChar (l := rest)).length_le; omega

def StageSpec.lookup (stage : StageSpec) (name : String) : Option String :=
  match (stage.env.filterMap (splitOnce '=')).reverse.find? fun entry => entry.1 = name with
  | some entry => some entry.2
  | none => stage.args.get name

def StageSpec.interpolateValue (stage : StageSpec) (value : String) : String :=
  String.ofList (interpolateChars stage.lookup value.toList)

def parseCopyOwner (raw : String) : Except DockerfileBuildError CopyOwner := do
  let parts := (raw.toList.splitOn ':').map String.ofList
  let user := trimText (parts.head?.getD "")
  if user = "" then
    throw (.invalid "COPY --chown user must not be empty")
  let group ← match parts[1]? with
    | some value =>
      if value ≠ "" then pure (some (trimText value))
      else throw (.invalid "COPY --chown gid must not be empty")
    | none => pure none
  if parts.length > 2 then
    throw (.invalid "COPY --chown accepts only uid[:gid]")
  match parseU32 user, group with
  | some uid, some group =>
    match parseU32 group with
    | some gid => pure (.numeric uid gid)
    | none => pure (.named user (some group))
  | some uid, none => pure (.numeric uid uid)
  | none, _ => pure (.named user group)

def parseCopyMode (raw : String) : Except DockerfileBuildError UInt32 :=
  if raw = "" || raw.utf8ByteSize > 4 || !raw.toList.all (fun c => '0' ≤ c && c ≤ '7') then
    invalid ("invalid COPY --chmod mode: " ++ raw)
  else .ok (UInt32.ofNat (raw.toList.foldl (fun n c => 8 * n + (c.toNat - '0'.toNat)) 0))

def isHexDigit (c : Char) : Bool :=
  c.isDigit || ('a' ≤ c && c ≤ 'f') || ('A' ≤ c && c ≤ 'F')

def parseCopyChecksum (raw : String) : Except DockerfileBuildError String :=
  match stripPrefix "sha256:" raw with
  | none => invalid "ADD --checksum requires sha256:<64 hex>"
  | some digest =>
    if digest.utf8ByteSize ≠ 64 || !digest.toList.all isHexDigit then
      invalid "ADD --checksum requires sha256:<64 hex>"
    else .ok digest.toLower

def copyFromOptions : List String → Option String → Option CopyOwner →
    Except DockerfileBuildError (Option String × Option CopyOwner × List String)
  | [], from_, owner => .ok (from_, owner, [])
  | token :: rest, from_, owner =>
    if startsWith "--from=" token then
      copyFromOptions rest (some (trimStartMatches "--from=" token)) owner
    else if token = "--from" then
      match rest with
      | [] => invalid "COPY --from missing stage"
      | value :: rest => copyFromOptions rest (some value) owner
    else if startsWith "--chown=" token then
      match parseCopyOwner (trimStartMatches "--chown=" token) with
      | .error error => .error error
      | .ok owner => copyFromOptions rest from_ (some owner)
    else if token = "--chown" then
      match rest with
      | [] => invalid "COPY --chown requires an owner"
      | value :: rest =>
        match parseCopyOwner value with
        | .error error => .error error
        | .ok owner => copyFromOptions rest from_ (some owner)
    else .ok (from_, owner, token :: rest)

def parseCopyFrom (value : String) : Except DockerfileBuildError (Option CopyFromSpec) := do
  let (from_, owner, rest) ← copyFromOptions (splitWhitespace value) none none
  match from_ with
  | none => pure none
  | some from_ =>
    if rest.length ≤ 1 then
      throw (.invalid "COPY --from requires src and dest")
    pure (some ⟨from_, rest.dropLast, rest.getLast?.getD "", owner⟩)

def copyOptions : List String → CopySpec → Except DockerfileBuildError CopySpec
  | [], spec => .ok spec
  | token :: rest, spec => do
    if let some raw := stripPrefix "--chmod=" token then
      let mode ← parseCopyMode raw
      copyOptions rest { spec with chmod := some mode }
    else if token = "--chmod" then
      match rest with
      | [] => invalid "COPY --chmod requires a mode"
      | raw :: rest =>
        let mode ← parseCopyMode raw
        copyOptions rest { spec with chmod := some mode }
    else if let some raw := stripPrefix "--chown=" token then
      let owner ← parseCopyOwner raw
      copyOptions rest { spec with owner := some owner }
    else if token = "--chown" then
      match rest with
      | [] => invalid "COPY --chown requires an owner"
      | raw :: rest =>
        let owner ← parseCopyOwner raw
        copyOptions rest { spec with owner := some owner }
    else if let some raw := stripPrefix "--checksum=" token then
      let checksum ← parseCopyChecksum raw
      copyOptions rest { spec with checksum := some checksum }
    else if token = "--checksum" then
      match rest with
      | [] => invalid "ADD --checksum requires a digest"
      | raw :: rest =>
        let checksum ← parseCopyChecksum raw
        copyOptions rest { spec with checksum := some checksum }
    else if token = "--parents" then
      copyOptions rest { spec with parents := true }
    else if let some pattern := stripPrefix "--exclude=" token then
      if isBlank pattern then invalid "COPY --exclude requires a non-empty pattern"
      else copyOptions rest { spec with excludes := spec.excludes ++ [pattern] }
    else if token = "--exclude" then
      match rest with
      | [] => invalid "COPY --exclude requires a pattern"
      | pattern :: rest =>
        if isBlank pattern then invalid "COPY --exclude requires a non-empty pattern"
        else copyOptions rest { spec with excludes := spec.excludes ++ [pattern] }
    else if ["--link", "--link=true", "--link=false"].contains token then
      copyOptions rest spec
    else if startsWith "--" token then
      .error (.unsupported ("COPY flag " ++ token ++ " is not supported"))
    else copyOptions rest { spec with srcs := spec.srcs ++ [token] }

def isQuote (c : Char) : Bool := c = '\'' || c = '"'

def CopySpec.blank : CopySpec where
  srcs := []
  dest := ""
  chmod := none
  owner := none
  checksum := none
  parents := false
  excludes := []
  extractArchives := false
  inlineContent := none

def heredocOf (value : String) : Option (String × List String × String) :=
  match splitOnce '\n' value with
  | none => none
  | some (header, body) =>
    let words := splitWhitespace header
    (words.find? (startsWith "<<")).map fun marker => (marker, words, body)

def parseCopySpec (value : String) : Except DockerfileBuildError (Option CopySpec) := do
  match heredocOf value with
  | some (marker, words, body) =>
    let delimiter := trimMatches isQuote (trimStartMatches "-" (trimStartMatches "<<" marker))
    let tokens := words.filter (· ≠ marker)
    if delimiter = "" || tokens = [] then
      throw (.invalid "COPY heredoc requires a destination")
    if tokens.dropLast.any (startsWith "--") then
      throw (.unsupported "COPY heredoc flags are not supported")
    pure (some { CopySpec.blank with
      dest := tokens.getLast?.getD "", inlineContent := some body })
  | none =>
    let tokens := splitWhitespace value
    if tokens = [] then
      pure none
    else
      let spec ← copyOptions tokens .blank
      if spec.srcs.length < 2 then
        throw (.invalid "COPY/ADD requires src and dest")
      pure (some { spec with srcs := spec.srcs.dropLast, dest := spec.srcs.getLast?.getD "" })

/-! ## The body of a stage -/

inductive Keyword where
  | copy
  | add
  | run
  deriving DecidableEq

def StageSpec.pushCopyFrom (stage : StageSpec) (copy : CopyFromSpec) : StageSpec :=
  if stage.run = [] then { stage with copyFrom := stage.copyFrom ++ [copy] }
  else { stage with
    copyFromAfterRunIndex := some (stage.copyFromAfterRunIndex.getD stage.run.length)
    copyFromAfterRun := stage.copyFromAfterRun ++ [copy] }

def StageSpec.pushCopyPath (stage : StageSpec) (copy : CopySpec) : StageSpec :=
  if stage.run = [] then { stage with copyPaths := stage.copyPaths ++ [copy] }
  else { stage with
    copyPathsAfterRunIndex := some (stage.copyPathsAfterRunIndex.getD stage.run.length)
    copyPathsAfterRun := stage.copyPathsAfterRun ++ [copy] }

section
-- `parse_run_with_workdir`: the value, the shell and the working directory.
variable (parseRun : String → List String → String → Except DockerfileBuildError RunSpec)

def StageSpec.instruction (stage : StageSpec) (keyword : Keyword) (value : String) :
    Except DockerfileBuildError StageSpec := do
  let interpolated := stage.interpolateValue value
  match keyword with
  | .copy =>
    match ← parseCopyFrom interpolated with
    | some copy => pure (stage.pushCopyFrom copy)
    | none =>
      match ← parseCopySpec interpolated with
      | none => pure stage
      | some copy =>
        if copy.checksum.isSome then
          throw (.invalid "COPY --checksum is only valid for remote ADD")
        pure (stage.pushCopyPath copy)
  | .add =>
    match ← parseCopySpec interpolated with
    | none => pure stage
    | some copy => pure (stage.pushCopyPath { copy with extractArchives := true })
  | .run =>
    let run ← parseRun interpolated stage.shell (stage.workdir.getD "/")
    pure { stage with run := stage.run ++ [run] }

def StageSpec.parseBody (stage : StageSpec) (lines : List (Keyword × String)) :
    Except DockerfileBuildError StageSpec :=
  lines.foldlM (fun stage line => stage.instruction parseRun line.1 line.2) stage

end

end Ferrocrate.Dockerfile
