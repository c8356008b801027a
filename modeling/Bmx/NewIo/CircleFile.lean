import Bmx.Base.Overwrite
import Bmx.FatFs.Volume

/-!
# Cached descriptors

A descriptor over a FatFs file. Small files are kept in memory: from the start where the descriptor is for
reading and writing or truncates, and from the first seek where it is for reading. A cache that grows past
its limit is written to the card, and the descriptor goes on without it.

FatFs and the heap are the interface of the model. What they do is in `Medium`.
-/

namespace Bmx.NewIo

open Interaction FatFs Program

/-- `BMC64_FILE_CACHE_LIMIT`. -/
abbrev fileCacheLimit : Nat := 512 * 1024

abbrev uintMax : Nat := 2 ^ 32 - 1

inductive Errno
  | zero | eacces | ebadf | eexist | efbig | einval | eio | enfile | enoent | enomem | enotdir
  deriving DecidableEq, Repr

/-- `set_fatfs_errno`. -/
def fatfsErrno : FResult → Errno
  | .noFile | .invalidName => .enoent
  | .noPath | .invalidDrive => .enotdir
  | .exist => .eexist
  | .notEnoughCore => .enomem
  | .tooManyOpenFiles => .enfile
  | .denied | .writeProtected => .eacces
  | .invalidObject => .ebadf
  | _ => .eio

inductive AccessMode
  | rdonly | wronly | rdwr
  deriving DecidableEq, Repr

structure OpenFlags where
  accmode : AccessMode
  append : Bool := false
  creat : Bool := false
  excl : Bool := false
  trunc : Bool := false
  deriving DecidableEq, Repr

/-- What `f_open` does with a file that exists, or not. -/
inductive Disposition
  | openExisting | openAppend | createNew | createAlways | openAlways
  deriving DecidableEq

/-- The creation bits of `fatfs_open_flags`; the access bits are those of the mode. -/
def fatfsOpenFlags (flags : OpenFlags) : Disposition :=
  if flags.append then .openAppend
  else if flags.creat ∧ flags.excl then .createNew
  else if flags.trunc then .createAlways
  else if flags.creat then .openAlways
  else .openExisting

/-- `CircleFile`, without the FatFs object and its name. A file without contents has no block. -/
structure CircleFile where
  contents : Bytes
  allocated : Nat
  size : Nat
  position : Nat
  mode : AccessMode
  flags : OpenFlags
  writtenTo : Bool
  cached : Bool

/-! ### The interface -/

/-- The place in the code that calls FatFs. -/
inductive Site
  | caching | flush | flushed | spilled | append | direct
  deriving DecidableEq

inductive Op
  | malloc (size : Nat)
  | realloc (block : Bytes) (size : Nat)
  | open (disposition : Disposition)
  | close
  | lseek (site : Site) (offset : Nat)
  | read (site : Site) (count : Nat)
  | write (site : Site) (bytes : Bytes)
  | truncate
  | sync

@[reducible] def Op.Answer : Op → Type
  | .malloc _ | .realloc _ _ => Option Bytes
  | .open _ => FResult × Nat
  | .close | .lseek _ _ | .truncate | .sync => FResult
  | .read _ _ => FResult × Bytes
  | .write _ _ => FResult × Nat

@[reducible] def signature : Signature := ⟨Op, Op.Answer⟩

/-! ### Transfers -/

/-- `read_exact`: the bytes that were read. -/
def readExact (size : Nat) : Program signature (Except Errno Bytes) := do
  if size = 0 then return .ok []
  let (result, bytes) ← perform (S := signature) (.read .caching size)
  if result ≠ .ok then return .error (fatfsErrno result)
  if _h : bytes = [] then return .error .eio
  else
    match ← readExact (size - bytes.length) with
    | .error errno => return .error errno
    | .ok rest => return .ok (bytes ++ rest)
termination_by size
decreasing_by
  have hlength := List.length_pos_iff.2 _h
  omega

def writeExact (bytes : Bytes) : Program signature (Except Errno Unit) := do
  if _hbytes : bytes = [] then return .ok ()
  let (result, count) ← perform (S := signature) (.write .flush bytes)
  if result ≠ .ok then return .error (fatfsErrno result)
  if _hcount : count = 0 then return .error .eio
  else writeExact (bytes.drop count)
termination_by bytes.length
decreasing_by
  have hlength := List.length_pos_iff.2 _hbytes
  rw [List.length_drop]
  omega

/-! ### The cache -/

/-- The loop of `ensure_file_capacity`. -/
def grownCapacity (required : Nat) (hrequired : required ≤ fileCacheLimit) (allocated : Nat) (hallocated : 0 < allocated) :
    Nat :=
  if allocated < required then
    if allocated > fileCacheLimit / 2 then grownCapacity required hrequired fileCacheLimit (Nat.mul_pos (by decide) (by decide))
    else grownCapacity required hrequired (allocated * 2) (by omega)
  else allocated
termination_by required - allocated
decreasing_by
  · omega
  · omega

def ensureFileCapacity (file : CircleFile) (required : Nat) : Program signature (Except Errno CircleFile) := do
  if required ≤ file.allocated then return .ok file
  if hrequired : required > fileCacheLimit then return .error .efbig
  else
    let newAllocated :=
      if hallocated : file.allocated = 0 then grownCapacity required (by omega) 1024 (by decide)
      else grownCapacity required (by omega) file.allocated (by omega)
    let newContents ←
      if file.contents = [] then perform (S := signature) (.malloc newAllocated)
      else perform (S := signature) (.realloc file.contents newAllocated)
    match newContents with
    | none => return .error .enomem
    | some block => return .ok { file with contents := block, allocated := newAllocated }

/-- `cache_file`. An error leaves the file as it is. -/
def cacheFile (file : CircleFile) (errno : Errno) : Program signature (Except Errno CircleFile) := do
  if file.cached then return .ok file
  if file.size > fileCacheLimit then return .error errno
  if file.size = 0 then return .ok { file with contents := [], allocated := 0, cached := true }
  match ← perform (S := signature) (.malloc file.size) with
  | none => return .error .enomem
  | some _ =>
    let result ← perform (S := signature) (.lseek .caching 0)
    if result ≠ .ok then return .error (if errno = .zero then .eio else errno)
    match ← readExact file.size with
    | .error errno => return .error errno
    | .ok contents => return .ok { file with contents := contents, allocated := file.size, cached := true }

/-- `flush_cached_file`, which leaves the descriptor as it is. -/
def flushCachedFile (file : CircleFile) : Program signature (Except Errno Unit) := do
  if file.cached = false ∨ file.writtenTo = false then return .ok ()
  let begun ← perform (S := signature) (.lseek .flush 0)
  if begun ≠ .ok then return .error .eio
  match ← writeExact (file.contents.take file.size) with
  | .error errno => return .error errno
  | .ok () =>
    let ended ← perform (S := signature) (.lseek .flushed file.size)
    if ended ≠ .ok then return .error .eio
    let truncated ← perform (S := signature) .truncate
    if truncated ≠ .ok then return .error (fatfsErrno truncated)
    let synced ← perform (S := signature) .sync
    if synced ≠ .ok then return .error (fatfsErrno synced)
    return .ok ()

def releaseFileContents (file : CircleFile) : CircleFile := { file with contents := [], allocated := 0 }

/-- `spill_cache`: the error, and the file. -/
def spillCache (file : CircleFile) : Program signature (Option Errno × CircleFile) := do
  if file.cached = false then return (none, file)
  match ← flushCachedFile file with
  | .error errno => return (some errno, file)
  | .ok () =>
    let file := { releaseFileContents file with cached := false }
    let result ← perform (S := signature) (.lseek .spilled file.position)
    if result ≠ .ok then return (some .eio, file)
    return (none, file)

/-! ### Calls -/

/-- What a call returns: -1, a descriptor, the bytes that were read, or a number. -/
inductive Return
  | failed
  | descriptor
  | bytes (read : Bytes)
  | value (count : Nat)
  deriving DecidableEq

inductive Whence
  | set | cur | end | other

/-- `_open`, where the descriptor is free. -/
def openDescriptor (flags : OpenFlags) (errno : Errno) : Program signature (Return × Option CircleFile) := do
  let (result, fatfsSize) ← perform (S := signature) (.open (fatfsOpenFlags flags))
  if result ≠ .ok then return (.failed, none)
  if fatfsSize > uintMax then
    let _ ← perform (S := signature) .close
    return (.failed, none)
  let file : CircleFile :=
    { contents := []
      allocated := 0
      size := fatfsSize
      position := if flags.append then fatfsSize else 0
      mode := flags.accmode
      flags := flags
      writtenTo := false
      cached := false }
  let cacheReadWrite : Bool := flags.accmode = .rdwr ∧ file.size ≤ fileCacheLimit
  let cacheTruncatedWrite : Bool := flags.accmode = .wronly ∧ flags.trunc
  if cacheReadWrite || cacheTruncatedWrite then
    match ← cacheFile file errno with
    | .error _ =>
      let _ ← perform (S := signature) .close
      return (.failed, none)
    | .ok file => return (.descriptor, some file)
  else return (.descriptor, some file)

/-- `_close`. -/
def closeDescriptor (file : CircleFile) : Program signature (Return × Option CircleFile) := do
  let flushed : Except Errno Unit ←
    if file.cached then flushCachedFile file
    else if file.writtenTo = false then pure (.ok ())
    else do
      let synced ← perform (S := signature) .sync
      pure (if synced = .ok then .ok () else .error (fatfsErrno synced))
  let closed ← perform (S := signature) .close
  match flushed with
  | .error _ => return (.failed, none)
  | .ok () => return (if closed = .ok then .value 0 else .failed, none)

/-- `_read`. -/
def readDescriptor (file : CircleFile) (len : Int) : Program signature (Return × Option CircleFile) := do
  if len < 0 then return (.failed, some file)
  if file.mode = .wronly then return (.failed, some file)
  if file.cached = false then
    let (result, bytes) ← perform (S := signature) (.read .direct len.toNat)
    if result ≠ .ok then return (.failed, some file)
    return (.bytes bytes, some { file with position := file.position + bytes.length })
  else
    let remain := if file.position ≤ file.size then file.size - file.position else 0
    let max := if len.toNat > remain then remain else len.toNat
    return (.bytes ((file.contents.drop file.position).take max), some { file with position := file.position + max })

/-- The end of `_write`, where bytes were written. -/
def written (file : CircleFile) (count : Nat) : Return × Option CircleFile :=
  let position := file.position + count
  (.value count, some { file with
    position := position
    size := if position > file.size then position else file.size
    writtenTo := true })

/-- `_write`, where the position is known. -/
def writeAt (file : CircleFile) (bytes : Bytes) : Program signature (Return × Option CircleFile) := do
  if bytes.length > uintMax - file.position then return (.failed, some file)
  let required := file.position + bytes.length
  let (spillError, file) ←
    if file.cached ∧ required > fileCacheLimit then spillCache file else pure (none, file)
  if spillError ≠ none then return (.failed, some file)
  if file.cached then
    match ← ensureFileCapacity file required with
    | .error _ => return (.failed, some file)
    | .ok file => return written { file with contents := overwrite file.contents file.position bytes } bytes.length
  else
    let (result, count) ← perform (S := signature) (.write .direct bytes)
    if result ≠ .ok then return (.failed, some file)
    if count = 0 then return (.failed, some file)
    return written file count

/-- `_write`. -/
def writeDescriptor (file : CircleFile) (ptr : Nat → UInt8) (len : Int) :
    Program signature (Return × Option CircleFile) := do
  if len < 0 then return (.failed, some file)
  if file.mode = .rdonly then return (.failed, some file)
  if len = 0 then return (.value 0, some file)
  let bytes := (List.range len.toNat).map ptr
  if file.flags.append then
    let file := { file with position := file.size }
    if file.cached = false then
      let result ← perform (S := signature) (.lseek .append file.position)
      if result ≠ .ok then return (.failed, some file)
      else writeAt file bytes
    else writeAt file bytes
  else writeAt file bytes

/-- `fsync`. -/
def fsyncDescriptor (file : CircleFile) : Program signature (Return × Option CircleFile) := do
  if file.mode = .rdonly then return (.failed, some file)
  let flushed : Except Errno Unit ←
    if file.cached then flushCachedFile file
    else do
      let synced ← perform (S := signature) .sync
      pure (if synced = .ok then .ok () else .error (fatfsErrno synced))
  match flushed with
  | .error _ => return (.failed, some file)
  | .ok () => return (.value 0, some { file with writtenTo := false })

/-- The position that a seek asks for. -/
def nextPosition (size position : Nat) (ptr : Int) : Whence → Option Int
  | .set => some ptr
  | .cur => some (position + ptr)
  | .end => some (size + ptr)
  | .other => none

/-- The end of `_lseek`. -/
def seekTo (file : CircleFile) (next : Nat) : Program signature (Return × Option CircleFile) := do
  if file.cached = false then
    let result ← perform (S := signature) (.lseek .direct next)
    if result ≠ .ok then return (.failed, some file)
    return (.value next, some { file with position := next })
  else return (.value next, some { file with position := next })

/-- `_lseek`. -/
def lseekDescriptor (file : CircleFile) (ptr : Int) (dir : Whence) (errno : Errno) :
    Program signature (Return × Option CircleFile) := do
  match nextPosition file.size file.position ptr dir with
  | none => return (.failed, some file)
  | some next =>
    if next < 0 ∨ next > file.size then return (.failed, some file)
    if file.mode = .rdonly ∧ file.cached = false ∧ file.size ≤ fileCacheLimit then
      match ← cacheFile file errno with
      | .ok file => seekTo file next.toNat
      | .error errno => if errno ≠ .enomem then return (.failed, some file) else seekTo file next.toNat
    else seekTo file next.toNat

inductive Call
  | open (flags : OpenFlags)
  | close
  | read (len : Int)
  | write (ptr : Nat → UInt8) (len : Int)
  | lseek (ptr : Int) (dir : Whence)
  | fsync

/-- A call on the descriptor, which is free or in use. -/
def Call.program (call : Call) (errno : Errno) : Option CircleFile → Program signature (Return × Option CircleFile)
  | none =>
    match call with
    | .open flags => openDescriptor flags errno
    | _ => return (.failed, none)
  | some file =>
    match call with
    | .open _ => return (.failed, some file)
    | .close => closeDescriptor file
    | .read len => readDescriptor file len
    | .write ptr len => writeDescriptor file ptr len
    | .lseek ptr dir => lseekDescriptor file ptr dir errno
    | .fsync => fsyncDescriptor file

end Bmx.NewIo
