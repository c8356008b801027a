import Bmx.NewIo.CircleFile

/-!
# The card below a descriptor

The file at one path, the pointer of the FatFs object, and whether a hard error has put the object out of
use. A primitive has its documented effect or fails. A failure that is no hard error leaves everything as
it was; after a hard error every primitive fails until the file is opened again.
-/

namespace Bmx.NewIo

open Interaction FatFs

structure Medium where
  file : Option Bytes
  fptr : Nat
  aborted : Bool

namespace Medium

/-- What is on the card. -/
def content (m : Medium) : Bytes := m.file.getD []

/-- Bytes went to the card at the pointer. -/
def stored (m : Medium) (bytes : Bytes) : Medium :=
  { m with file := some (overwrite m.content m.fptr bytes), fptr := m.fptr + bytes.length }

/-- The bytes that a read finds. -/
def available (m : Medium) (count : Nat) : Bytes := (m.content.drop m.fptr).take count

/-- The file that is open afterwards, if `f_open` can open one. -/
def opened (m : Medium) : Disposition → Option Bytes
  | .openExisting => m.file
  | .createNew => if m.file = none then some [] else none
  | .createAlways => some []
  | .openAlways | .openAppend => some m.content

/-- A primitive with its documented effect, on an object that is in use. A seek behind the end may do
anything to the file. -/
def Performs (m : Medium) : (op : Op) → op.Answer → Medium → Prop
  | .malloc size, answer, m' => m' = m ∧ ∃ block, answer = some block ∧ block.length = size
  | .realloc old size, answer, m' =>
    m' = m ∧ ∃ block, answer = some block ∧ block.length = size ∧ block.take old.length = old.take size
  | .open disposition, answer, m' =>
    match m.opened disposition with
    | some content => answer = (.ok, content.length) ∧ m' =
        { file := some content
          fptr := if disposition = .openAppend then content.length else 0
          aborted := false }
    | none => (answer.1 = if disposition = .createNew then .exist else .noFile) ∧ m' = m
  | .close, answer, m' => answer = .ok ∧ m' = m
  | .lseek _ offset, answer, m' =>
    m.aborted = false ∧ answer = .ok ∧ m'.aborted = false ∧
      (offset ≤ m.content.length → m' = { m with fptr := offset })
  | .read _ count, answer, m' =>
    m.aborted = false ∧ answer = (.ok, m.available count) ∧
      m' = { m with fptr := m.fptr + (m.available count).length }
  | .write _ bytes, answer, m' => m.aborted = false ∧ answer = (.ok, bytes.length) ∧ m' = m.stored bytes
  | .truncate, answer, m' =>
    m.aborted = false ∧ answer = .ok ∧ m' = { m with file := some (m.content.take m.fptr) }
  | .sync, answer, m' => m.aborted = false ∧ answer = .ok ∧ m' = m

/-- What a failure leaves behind: nothing has happened, or the object is out of use. -/
def Spoiled (m m' : Medium) : Prop := m' = m ∨ m.aborted = false ∧ m'.aborted = true ∧ m'.file = m.file

/-- A primitive or an allocation that fails, or moves fewer bytes than it was asked for. -/
def Fails (m : Medium) : (op : Op) → op.Answer → Medium → Prop
  | .malloc _, answer, m' | .realloc _ _, answer, m' => answer = none ∧ m' = m
  | .open _, answer, _ => answer.1 ≠ .ok
  | .close, answer, _ => answer ≠ .ok
  | .lseek _ _, answer, m' | .sync, answer, m' => answer ≠ .ok ∧ m.Spoiled m'
  | .read _ count, answer, m' =>
    (answer.1 ≠ .ok ∧ answer.1 ≠ .notEnoughCore ∧ m.Spoiled m') ∨
      (m.aborted = false ∧ ∃ fewer, fewer < count ∧ answer = (.ok, m.available fewer) ∧
        m' = { m with fptr := m.fptr + (m.available fewer).length })
  | .write _ bytes, answer, m' =>
    (answer.1 ≠ .ok ∧ (m' = m ∨
      m.aborted = false ∧ m'.aborted = true ∧ ∃ fewer, m'.file = some (overwrite m.content m.fptr (bytes.take fewer)))) ∨
      (m.aborted = false ∧ ∃ fewer, fewer < bytes.length ∧ answer = (.ok, fewer) ∧ m' = m.stored (bytes.take fewer))
  | .truncate, answer, m' => answer ≠ .ok ∧ (m' = m ∨ m.aborted = false ∧ m'.aborted = true ∧ m'.file ≠ none)

end Medium

/-- An answer that makes the call fail. -/
def Refused : (op : Op) → op.Answer → Prop
  | .malloc _, answer | .realloc _ _, answer => answer = none
  | .open _, answer => answer.1 ≠ .ok
  | .close, answer | .lseek _ _, answer | .truncate, answer | .sync, answer => answer ≠ .ok
  | .read _ _, answer => answer.1 ≠ .ok ∨ answer.2 = []
  | .write _ _, answer => answer.1 ≠ .ok ∨ answer.2 = 0

/-- A card and a heap that fail in any way. -/
def faulty : Env signature Medium := fun op m answer m' => m.Performs op answer m' ∨ m.Fails op answer m'

/-! ### The reference -/

/-- An open file: its content, the position and how it was opened. -/
structure RefFile where
  content : Bytes
  position : Nat
  mode : AccessMode
  append : Bool
  deriving DecidableEq, Repr

namespace RefFile

def opened (flags : OpenFlags) (content : Bytes) : RefFile where
  content := content
  position := if flags.append then content.length else 0
  mode := flags.accmode
  append := flags.append

def stored (r : RefFile) (bytes : Bytes) : RefFile :=
  let position := if r.append then r.content.length else r.position
  { r with content := overwrite r.content position bytes, position := position + bytes.length }

def step (r : RefFile) : Call → Return × RefFile
  | .read len =>
    if len < 0 ∨ r.mode = .wronly then (.failed, r)
    else
      let bytes := (r.content.drop r.position).take len.toNat
      (.bytes bytes, { r with position := r.position + bytes.length })
  | .write ptr len =>
    if len < 0 ∨ r.mode = .rdonly then (.failed, r)
    else if len = 0 then (.value 0, r)
    else (.value len.toNat, r.stored ((List.range len.toNat).map ptr))
  | .lseek ptr dir =>
    match nextPosition r.content.length r.position ptr dir with
    | none => (.failed, r)
    | some next =>
      if next < 0 ∨ next > r.content.length then (.failed, r)
      else (.value next.toNat, { r with position := next.toNat })
  | .fsync => if r.mode = .rdonly then (.failed, r) else (.value 0, r)
  | .open _ | .close => (.failed, r)

end RefFile

/-- A path, and the open file where there is one. -/
structure Reference where
  disk : Option Bytes
  opened : Option RefFile

/-- What is at the path. -/
def Reference.file (r : Reference) : Option Bytes :=
  match r.opened with
  | some file => some file.content
  | none => r.disk

/-- What is opened at a path, from the flags alone: a missing file is made when they say so, an existing one
is refused when it has to be new, and emptied when it is to be truncated. -/
def OpenFlags.opens (flags : OpenFlags) : Option Bytes → Option Bytes
  | none => if flags.creat then some [] else none
  | some content =>
    if flags.creat ∧ flags.excl then none
    else if flags.trunc then some []
    else some content

/-- A call on a descriptor of a plain file. -/
def Reference.step (r : Reference) (call : Call) : Return × Reference :=
  match r.opened with
  | none =>
    match call with
    | .open flags =>
      match flags.opens r.disk with
      | none => (.failed, r)
      | some content => (.descriptor, { r with opened := some (RefFile.opened flags content) })
    | _ => (.failed, r)
  | some file =>
    match call with
    | .close => (.value 0, { disk := some file.content, opened := none })
    | call => ((file.step call).1, { r with opened := some (file.step call).2 })

end Bmx.NewIo
