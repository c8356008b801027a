import Bmx.NewIo.CircleFile

/-!
# The current directory

The C library keeps the current directory as a path, with the name of a volume in front of it or not, and makes the paths
of all calls from it. FatFs knows which volume a name stands for, and which one a path without a name is on.
-/

namespace Bmx.NewIo

open FatFs

def colon : UInt8 := 58
def pathMax : Nat := 256

def dot : Bytes := ascii "."
def dotDot : Bytes := ascii ".."

/-- `has_fatfs_volume_prefix`. A character that is not there is behind all others. -/
def hasFatfsVolumePrefix (path : Bytes) : Bool := path.idxOf colon < path.idxOf slash

def isAbsolutePath (path : Bytes) : Bool := path.head? = some slash ∨ hasFatfsVolumePrefix path

def isRootPath (path : Bytes) : Bool :=
  path = [slash] ∨ path.dropWhile (· ≠ colon) = [colon] ∨ path.dropWhile (· ≠ colon) = [colon, slash]

/-- The loop of `strip_trailing_slash`, which takes a byte away in each round. -/
def stripTrailingSlashLoop : Nat → Bytes → Bytes
  | 0, path => path
  | count + 1, path =>
    if path.length > 1 ∧ path.getLast? = some slash ∧ !isRootPath path then stripTrailingSlashLoop count path.dropLast
    else path

def stripTrailingSlash (path : Bytes) : Bytes := stripTrailingSlashLoop path.length path

/-- `append_path_component`, if there is room. -/
def appendPathComponent (path component : Bytes) : Option Bytes :=
  let joined := if path ≠ [] ∧ path.getLast? ≠ some slash then path ++ slash :: component else path ++ component
  if component = [] then some path else if joined.length < pathMax then some joined else none

/-- `strrchr(path, '/')` -/
def lastSlash (path : Bytes) : Option Nat :=
  if slash ∈ path then some (path.length - 1 - path.reverse.idxOf slash) else none

/-- `move_current_dir_to_parent` -/
def moveToParent (currentDir : Bytes) : Bytes :=
  let path := stripTrailingSlash currentDir
  if isRootPath path then path
  else
    match lastSlash path with
    | none => [slash]
    | some last =>
      if last = 0 then path.take 1
      else if colon ∈ path ∧ last = path.idxOf colon + 1 then path.take (last + 1)
      else path.take last

inductive PathErrno
  | enametoolong | enotdir
  | fatfs (errno : Errno)
  deriving DecidableEq

def circlePath (currentDir path : Bytes) : Except PathErrno Bytes :=
  if path = [] then .ok []
  else if isAbsolutePath path then
    if path.length ≥ pathMax then .error .enametoolong else .ok (stripTrailingSlash path)
  else if path = dot then .ok (stripTrailingSlash currentDir)
  else
    match appendPathComponent currentDir (if path.take 2 = [46, slash] then path.drop 2 else path) with
    | none => .error .enametoolong
    | some joined => .ok (stripTrailingSlash joined)

/-- What `f_stat` says of a path: whether it is a directory, or why not. -/
abbrev Stat : Type := Bytes → Except FResult Bool

/-- `chdir`, of a path that is given: the new current directory. -/
def chdir (stat : Stat) (currentDir path : Bytes) : Except PathErrno Bytes :=
  if path = [] ∨ path = dot then .ok currentDir
  else if path = dotDot then .ok (moveToParent currentDir)
  else
    match circlePath currentDir path with
    | .error errno => .error errno
    | .ok target =>
      if isRootPath target then .ok target
      else
        match stat target with
        | .error result => .error (.fatfs (fatfsErrno result))
        | .ok isDirectory => if isDirectory then .ok target else .error .enotdir

/-! ### Places -/

/-- The drives that names of volumes stand for, and the one that is meant where there is no name. -/
structure Drives where
  drive : Bytes → Nat
  currentDrive : Nat

def Drives.volume (drives : Drives) (path : Bytes) : Nat :=
  if hasFatfsVolumePrefix path then drives.drive (path.take (path.idxOf colon)) else drives.currentDrive

/-- The names between the slashes, with the one that has begun. -/
def pathNames : Bytes → Bytes → List Bytes
  | name, [] => if name = [] then [] else [name]
  | name, c :: path =>
    if c = slash then (if name = [] then pathNames [] path else name :: pathNames [] path)
    else pathNames (name ++ [c]) path

/-- The names of a path from the root of its drive. -/
def namesFromRoot (path : Bytes) : List Bytes :=
  pathNames [] (if hasFatfsVolumePrefix path then path.drop (path.idxOf colon + 1) else path)

def Drives.directory (drives : Drives) (path : Bytes) : Nat × List Bytes := (drives.volume path, namesFromRoot path)

/-- The current directories that successful calls of `chdir` lead to. The cards may change between them. -/
inductive Reachable : Bytes → Prop
  | start : Reachable [slash]
  | chdir {currentDir path next : Bytes} (stat : Stat) (hreach : Reachable currentDir)
      (hchdir : NewIo.chdir stat currentDir path = .ok next) : Reachable next

/-- The name of a directory in a directory. -/
structure SingleComponent (name : Bytes) : Prop where
  nonempty : name ≠ []
  noSlash : slash ∉ name
  noColon : colon ∉ name
  notDot : name ≠ dot
  notDotDot : name ≠ dotDot

/-- Into a directory and back again. -/
def ReturnsHome (drives : Drives) (currentDir : Bytes) : Prop :=
  ∀ (name : Bytes) (stat stat' : Stat) (inside back : Bytes), SingleComponent name →
    chdir stat currentDir name = .ok inside → chdir stat' inside dotDot = .ok back →
      drives.directory back = drives.directory currentDir

/-- A path is resolved on the volume of the current directory. -/
def StaysOnVolume (drives : Drives) (currentDir path : Bytes) : Prop :=
  (∀ target, circlePath currentDir path = .ok target → drives.volume target = drives.volume currentDir) ∧
    ∀ stat next, chdir stat currentDir path = .ok next → drives.volume next = drives.volume currentDir

/-- The parent is not on the volume of a directory whose path is a volume and a name with no slash between them. -/
def LosesVolume (drives : Drives) (currentDir : Bytes) : Prop :=
  slash ∉ stripTrailingSlash currentDir ∧ isRootPath (stripTrailingSlash currentDir) = false ∧
    drives.volume currentDir ≠ drives.currentDrive

end Bmx.NewIo
