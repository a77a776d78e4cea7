import Ferrocrate.Lib.Framing
import Ferrocrate.Lib.OrdMap
import Ferrocrate.Lib.Paths
import Ferrocrate.Lib.Text

/-! Build contexts: what is hashed of them and what is copied, `dockerfile_build.rs`. -/
namespace Ferrocrate.Dockerfile
open Lib

inductive Leaf
  | file (bytes : Bytes)
  | symlink (target : Bytes)
  | other
  deriving DecidableEq

inductive Dir
  | nil
  | leaf (name : String) (content : Leaf) (rest : Dir)
  | directory (name : String) (entries rest : Dir)
  deriving DecidableEq

abbrev RelPath := List String

namespace Dir

def names : Dir → List String
  | nil => []
  | leaf name _ rest => name :: rest.names
  | directory name _ rest => name :: rest.names

def validName (name : String) : Bool := name ≠ "" && !name.toList.contains '/'

def wellFormed : Dir → Bool
  | nil => true
  | leaf name _ rest => validName name && !rest.names.contains name && rest.wellFormed
  | directory name entries rest =>
    validName name && !rest.names.contains name && entries.wellFormed && rest.wellFormed

def find : Dir → RelPath → Option Leaf
  | nil, _ => none
  | leaf name content rest, path => if path = [name] then some content else rest.find path
  | directory name entries rest, path =>
    match path with
    | [] => none
    | first :: below => if first = name then entries.find below else rest.find path

end Dir

def dockerfileName : String := ".ferrocrate-no-dockerfile"

structure BuildContext where
  dir : Dir
  dockerfile : Option RelPath
  dockerignore : Option String
  holdsDestination : RelPath → Bool
  wellFormed : dir.wellFormed = true

def RelPath.text : RelPath → String
  | [] => ""
  | [name] => name
  | name :: rest => name ++ "/" ++ RelPath.text rest

def loadDockerignorePatterns (content : Option String) : List String :=
  match content with
  | none => []
  | some content =>
    (((content.toList.splitOn '\n').map String.ofList).map trimText).filter fun line =>
      line ≠ "" && !startsWith "#" line && !startsWith "!" line

def afterFirst (part : List Char) : List Char → Option (List Char)
  | [] => if part = [] then some [] else none
  | c :: value =>
    if part.isPrefixOf (c :: value) then some ((c :: value).drop part.length)
    else afterFirst part value

def matchParts (value : List Char) : List (List Char) → Bool
  | [] => true
  | part :: parts =>
    match afterFirst part value with
    | some remainder => matchParts remainder parts
    | none => false

def wildcardMatch (pattern value : String) : Bool :=
  let split := pattern.toList.splitOn '*'
  let parts := split.filter fun part => part ≠ []
  let middle :=
    match parts with
    | [] => true
    | first :: rest =>
      if startsWith "*" pattern then matchParts value.toList parts
      else first.isPrefixOf value.toList && matchParts (value.toList.drop first.length) rest
  middle && (split.getLast?.getD []).isSuffixOf value.toList

def dockerignoreMatches (pattern path : String) : Bool :=
  let normalized := trimStartMatches "./" pattern
  if normalized = "" then false
  else if normalized.toList.getLast? = some '/' then
    let parent := String.ofList normalized.toList.dropLast
    path = parent || startsWith (parent ++ "/") path
  else if normalized.toList.contains '*' then wildcardMatch normalized path
  else path = normalized || startsWith (normalized ++ "/") path

def shouldIgnoreContextPath (relative : RelPath) (patterns : List String) : Bool :=
  patterns.any fun pattern => dockerignoreMatches pattern relative.text

namespace BuildContext

def patterns (context : BuildContext) : List String :=
  loadDockerignorePatterns context.dockerignore

def skips (context : BuildContext) (relative : RelPath) : Bool :=
  context.dockerfile = some relative || shouldIgnoreContextPath relative context.patterns ||
    relative.head? = some ".git" || relative.head? = some ".ferrocrate"

end BuildContext

def collectContextFiles (context : BuildContext) (excluded : RelPath → Bool) (base : RelPath) :
    Dir → List RelPath
  | .nil => []
  | .leaf name content rest =>
    let path := base ++ [name]
    (if excluded path || context.skips path || content = .other then [] else [path]) ++
      collectContextFiles context excluded base rest
  | .directory name entries rest =>
    let path := base ++ [name]
    (if excluded path || context.skips path then []
      else collectContextFiles context excluded path entries) ++
      collectContextFiles context excluded base rest

inductive ContextError
  | invalidName (name : String)
  | unavailable (name : String)
  | notADirectory (name : String)
  | io (path : RelPath)
  deriving DecidableEq

def hashedBytes (context : BuildContext) (path : RelPath) : Except ContextError Bytes :=
  match context.dir.find path with
  | some (.symlink target) =>
    .ok (utf8 path.text ++ (utf8 "link:" ++ Path.toStringLossy target))
  | some (.file bytes) => .ok (utf8 path.text ++ bytes)
  | _ => .error (.io path)

variable (shake256 sha256 : Bytes → String)

def hashContextDirExcluding (context : BuildContext) (excluded : RelPath → Bool) :
    Except ContextError String := do
  let files := (collectContextFiles context excluded [] context.dir).insertionSort (· ≤ ·)
  let records ← files.mapM (hashedBytes context)
  pure (shake256 records.flatten)

def hashContextDir (context : BuildContext) : Except ContextError String :=
  hashContextDirExcluding shake256 context fun _ => false

structure Disk where
  canonicalize : String → Option String
  isDir : String → Bool
  directory : String → BuildContext

def nameAllowed (name : String) : Bool :=
  name ≠ "" && decide (name.utf8ByteSize ≤ 255) &&
    name.toList.all fun c => c.isAlphanum || "._-/:@".toList.contains c

def canonicalizeNamedContexts (disk : Disk) (contexts : OrdMap String String) :
    Except ContextError (OrdMap String String) :=
  contexts.entries.foldlM (fun canonical e =>
    if !nameAllowed e.1 then .error (.invalidName e.1)
    else match disk.canonicalize e.2 with
      | none => .error (.unavailable e.1)
      | some resolved =>
        if disk.isDir resolved then .ok (canonical.insert e.1 resolved)
        else .error (.notADirectory e.1)) OrdMap.empty

def namedContext (disk : Disk) (path : String) : BuildContext :=
  { disk.directory path with dockerfile := some [dockerfileName] }

def bindingDomain : Bytes := utf8 "ferrocrate/build-contexts/v1"

def buildContextBindingDigest (disk : Disk) (primaryDigest : String)
    (contexts : OrdMap String String) : Except ContextError String := do
  let canonical ← canonicalizeNamedContexts disk contexts
  let named ← canonical.entries.mapM fun e => do
    let digest ← hashContextDir shake256 (namedContext disk e.2)
    pure (utf8 e.1 ++ utf8 digest)
  pure (sha256 (bindingDomain ++ utf8 primaryDigest ++ named.flatten))

def copyEntries (context : BuildContext) (base : RelPath) :
    Dir → List (String × List (RelPath × Leaf))
  | .nil => []
  | .leaf name content rest =>
    let path := base ++ [name]
    (name, if context.holdsDestination path || context.skips path || content = .other then []
      else [(path, content)]) :: copyEntries context base rest
  | .directory name entries rest =>
    let path := base ++ [name]
    (name, if context.holdsDestination path || context.skips path then []
      else ((copyEntries context path entries).insertionSort (·.1 ≤ ·.1)).flatMap Prod.snd) ::
      copyEntries context base rest

def copyContextDir (context : BuildContext) : List (RelPath × Leaf) :=
  ((copyEntries context [] context.dir).insertionSort (·.1 ≤ ·.1)).flatMap Prod.snd

end Ferrocrate.Dockerfile
