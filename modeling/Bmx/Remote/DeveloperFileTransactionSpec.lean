import Bmx.Remote.DeveloperFileTransaction
import Bmx.Update.FileSystemSpec

/-!
# What an upload does to the card

The file system under a transaction is a card on which every FatFs call, and every call of the file
system itself, may fail. Wherever a run is interrupted the target holds its old content or the
whole new one, or the old one is aside; and what was on the card before is left alone, as long as
no stat fails on a taken name while the temporary name is searched for.
-/

namespace Bmx.Remote

open Interaction FatFs Update DeveloperFileTransaction List

/-! ### Uploads -/

def failureOf : (op : FileSystemOp) → op.Answer
  | .stat _ | .openRead _ | .getSize _ | .readAt _ _ _ | .getFreeSpace | .getVolumeSize => none
  | .closeRead _ | .createFileFresh _ | .write _ | .sync | .closeWrite | .createDirectory _
  | .removeFile _ | .rename _ _ _ | .syncContainingDirectory _ => false

inductive TransactionCall
  | write (data : Option Bytes)
  | finish
  | abort

namespace TransactionCall

def apply : TransactionCall → DeveloperFileTransaction →
    Program fileSystemSignature DeveloperFileTransaction
  | .write data, t => t.write data >>= fun reply => pure reply.2
  | .finish, t => t.finish >>= fun reply => pure reply.2
  | .abort, t => t.abort

def applyAll : List TransactionCall → DeveloperFileTransaction →
    Program fileSystemSignature DeveloperFileTransaction
  | [], t => pure t
  | call :: rest, t => call.apply t >>= fun t => applyAll rest t

/-- The body that arrives before anything else is called. -/
def body : List TransactionCall → Bytes
  | .write (some data) :: rest => data ++ body rest
  | _ => []

end TransactionCall

/-- A request for a transaction on a file system. -/
structure Upload where
  fs : FatFsUpdateFileSystem
  request : UploadRequest

/-- The names `SelectSiblingPath` tries, but for the target itself. -/
def siblingNames (request : UploadRequest) (kind : UInt8) : List Bytes :=
  (preferredNames (directoryPart request.path) kind request.requestToken ++
    fallbackNames (directoryPart request.path) kind request.requestToken developerFilePathBytes).filter
      fun name => !foldEqual name request.path

/-- The card, the calls of FatFs and the failures of the calls above them. -/
@[reducible] def uploadSignature : Signature := FatFs.signature.sum fileSystemSignature.faults

/-- Every pattern of failures. -/
def uploadEnv : Env uploadSignature Volume := FatFs.env.beside fileSystemSignature.faults

namespace Upload

variable (u : Upload)

def program (t : DeveloperFileTransaction) (calls : List TransactionCall) :
    Program fileSystemSignature DeveloperFileTransaction :=
  t.begin u.request >>= fun reply => TransactionCall.applyAll calls reply.2

/-- The program down to FatFs. -/
def onCard (t : DeveloperFileTransaction) (calls : List TransactionCall) (handles : Handles) :
    Program uploadSignature (DeveloperFileTransaction × Handles) :=
  (u.program t calls).through (u.fs.layer.faulty failureOf) handles

/-- Where the file system looks for a path. -/
def absolute (path : Bytes) : Bytes := u.fs.volumeRoot.getD [] ++ path

def target : Bytes := u.absolute u.request.path

def IsTemporary (path : Bytes) : Prop :=
  ∃ name ∈ siblingNames u.request 117, u.fs.resolve name = some path

def IsBackup (path : Bytes) : Prop := ∃ name ∈ siblingNames u.request 98, u.fs.resolve name = some path

/-- No temporary file has been made yet. -/
def Searching (before v : Volume) : Prop :=
  ∀ path, u.IsTemporary path → v.lookup path = before.lookup path

/-- What is on the card at first, but for the target. -/
def Others (before : Volume) (path : Bytes) : Prop :=
  fold path ≠ fold u.target ∧ before.lookup path ≠ .missing

/-- A guarded path among the names that are tried, while the temporary name is searched for. -/
structure Endangered (before : Volume) (guarded : Bytes → Prop) (path : Bytes) (v : Volume) :
    Prop where
  temporary : u.IsTemporary path
  guarded : guarded path
  searching : u.Searching before v

/-- The content has the promised length and hash. -/
def Complete (content : Bytes) : Prop :=
  content.length = u.request.contentLength ∧ sha256Digest content = some u.request.expectedSha256

end Upload

/-- A transaction that is neither active nor holds on to anything. -/
structure Idle (t : DeveloperFileTransaction) : Prop where
  detached : t.fileSystem = false
  closed : t.writeFile = false
  inactive : t.active = false

theorem idle_create : Idle create := ⟨rfl, rfl, rfl⟩

theorem idle_released (t : DeveloperFileTransaction) : Idle t.released := ⟨rfl, rfl, rfl⟩

/-- The outcome of a call: one the adapter may leave behind, or a failure without effect. -/
def Outcome (fs : FatFsUpdateFileSystem) (op : FileSystemOp) (r : FsState) (answer : op.Answer)
    (r' : FsState) : Prop :=
  After fs op r answer r' ∨ (answer = failureOf op ∧ r' = r)

/-! ### What is kept -/

/-- An upload of `whole`, on a card that was `before`. Where it is `careful` no stat fails on a
guarded path while the temporary name is searched for. -/
structure Transfer where
  upload : Upload
  before : Volume
  whole : Bytes
  guarded : Bytes → Prop
  others : ∀ path, guarded path → upload.Others before path
  congr : ∀ path other, fold other = fold path → guarded path → guarded other
  careful : Prop

namespace Transfer

variable (f : Transfer)

def target : Bytes := f.upload.target

/-- The old content is in its place or aside, or the whole new one has taken its place. -/
inductive TargetKept (v : Volume) : Prop
  | same (h : v.lookup f.target = f.before.lookup f.target)
  | aside {backup : Bytes} (hbackup : f.upload.IsBackup backup)
      (hgone : v.lookup f.target = .missing) (h : v.lookup backup = f.before.lookup f.target)
  | replaced (hcomplete : f.upload.Complete f.whole) (h : v.lookup f.target = .file f.whole)

/-- What is guarded is as it was. -/
def Spared (v : Volume) : Prop := ∀ path, f.guarded path → v.lookup path = f.before.lookup path

structure Safe (v : Volume) : Prop where
  kept : f.TargetKept v
  spared : f.careful → f.Spared v

/-- A call of the file system that must not happen where the upload is careful. -/
def Careless : (op : FileSystemOp) → FsState → op.Answer → Prop
  | .stat name, r, answer => answer = none ∧ ∃ path, f.upload.fs.resolve name = some path ∧
      f.upload.Endangered f.before f.guarded path r.volume
  | _, _, _ => False

/-- The file system under the transaction, called only where the card is safe. -/
def contract : Contract fileSystemSignature FsState where
  pre op r := ∀ v, Midway f.upload.fs op r v → f.Safe v
  post op r answer r' :=
    Outcome f.upload.fs op r answer r' ∧ (f.careful → ¬ f.Careless op r answer)

variable {f : Transfer} {v v' : Volume} {path source destination content : Bytes} {node : FatFs.Node}

theorem resolve_eq_absolute {name : Bytes} (hresolve : f.upload.fs.resolve name = some path) :
    f.upload.absolute name = path := by
  obtain ⟨root, hroot, rfl⟩ := resolve_eq_some hresolve
  rw [Upload.absolute, hroot, Option.getD_some]

theorem located (hresolve : f.upload.fs.resolve f.upload.request.path = some path) :
    f.target = path := resolve_eq_absolute hresolve

theorem fold_absolute {u : Upload} {left right : Bytes} :
    fold (u.absolute left) = fold (u.absolute right) ↔ fold left = fold right := by
  rw [Upload.absolute, Upload.absolute, fold_append, fold_append, append_cancel_left_eq]

theorem Spared.sets (h : f.Spared v) (hfree : ¬ f.guarded path) (hsets : Sets v v' path node) :
    f.Spared v' := fun other hother => (hsets.keeps f.congr hfree hother).trans (h other hother)

theorem Spared.moves (h : f.Spared v) (hsource : ¬ f.guarded source)
    (hdestination : ¬ f.guarded destination) (hmoves : Moves v v' source destination content) : f.Spared v' :=
  fun other hother => (hmoves.keeps f.congr hsource hdestination hother).trans (h other hother)

theorem Spared.free (h : f.Spared v) (hmissing : v.lookup path = .missing) : ¬ f.guarded path :=
  fun hguarded => (f.others path hguarded).2 ((h path hguarded).symm.trans hmissing)

theorem free_target (f : Transfer) : ¬ f.guarded f.target := fun h => (f.others _ h).1 rfl

end Transfer

/-! ### Looking at the card -/

/-- What a program that only looks at the card may rely on. -/
structure Observable (C : Contract fileSystemSignature FsState) (fs : FatFsUpdateFileSystem)
    (v : Volume) : Prop where
  pre : ∀ op r, r.volume = v → (∀ v', Midway fs op r v' → v' = v) → C.pre op r
  post : ∀ op r answer r', C.post op r answer r' → Outcome fs op r answer r'

/-- The card and the file being written are the same as before. -/
def Unwritten (r r' : FsState) : Prop :=
  r'.volume = r.volume ∧ r'.handles.write = r.handles.write

theorem Unwritten.refl (r : FsState) : Unwritten r r := ⟨rfl, rfl⟩

theorem Unwritten.trans {r r' r'' : FsState} (h : Unwritten r r') (h' : Unwritten r' r'') :
    Unwritten r r'' := ⟨h'.1.trans h.1, h'.2.trans h.2⟩

section Observing

variable {C : Contract fileSystemSignature FsState} {fs : FatFsUpdateFileSystem} {v : Volume}
  {r : FsState}

theorem Observable.holds (h : Observable C fs v) {op : FileSystemOp}
    (hop : ∀ v', Midway fs op r v' → v' = r.volume) (hr : r.volume = v) :
    (Program.perform (S := fileSystemSignature) op).Holds C
      (fun answer r' => Outcome fs op r answer r') r :=
  ⟨h.pre op r hr fun v' hv' => (hop v' hv').trans hr, fun answer r' hpost => h.post op r answer r' hpost⟩

variable {path : Bytes}

theorem stat_holds (h : Observable C fs v) (hr : r.volume = v) :
    (UpdateFileSystem.stat path).Holds C (fun answer r' => r' = r ∧ ∀ info, answer = some info →
      ∃ absolute, fs.resolve path = some absolute ∧ info = statOf (v.lookup absolute)) r := by
  refine (h.holds (fun _ hv => hv.resolve_right id) hr).mono fun answer r' hafter => ?_
  rcases hafter with hafter | ⟨rfl, rfl⟩
  · rw [← hr]
    exact hafter
  · exact ⟨rfl, fun _ hnone => by cases hnone⟩

theorem closeRead_holds (h : Observable C fs v) {file : ReadId} (hr : r.volume = v) :
    (UpdateFileSystem.closeRead file).Holds C (fun _ r' => Unwritten r r') r := by
  refine (h.holds (fun _ hv => hv.resolve_right id) hr).mono fun answer r' hafter => ?_
  rcases hafter with hafter | ⟨-, rfl⟩
  · exact ⟨hafter.1, hafter.2.2⟩
  · exact .refl _

theorem getFreeSpace_holds (h : Observable C fs v) (hr : r.volume = v) :
    UpdateFileSystem.getFreeSpace.Holds C (fun _ r' => r' = r) r := by
  refine (h.holds (fun _ hv => hv.resolve_right id) hr).mono fun answer r' hafter => ?_
  rcases hafter with hafter | ⟨-, hsame⟩
  · exact hafter
  · exact hsame

/-! ### The hash of a file -/

variable {file : ReadId} {absolute content : Bytes}

variable {offset : Nat}

theorem readAt_holds (h : Observable C fs v) {count : Nat} (hr : r.volume = v)
    (hreading : Update.Reading r file absolute content) :
    (UpdateFileSystem.readAt file offset count).Holds C (fun bytes r' => Unwritten r r' ∧
      Update.Reading r' file absolute content ∧
        ∀ received, bytes = some received → received = (content.drop offset).take count) r := by
  refine (h.holds (fun _ hv => hv.resolve_right id) hr).mono fun bytes r' hafter => ?_
  rcases hafter with hafter | ⟨rfl, rfl⟩
  · obtain ⟨hvolume, -, hwrite, hread⟩ := hafter
    obtain ⟨hstill, hbytes⟩ := hread absolute content hreading
    exact ⟨⟨hvolume, hwrite⟩, hstill, fun received hreceived => (hbytes received hreceived).1⟩
  · exact ⟨.refl _, hreading, fun _ hnone => by cases hnone⟩

theorem hashFile_holds (h : Observable C fs v) {fuel : Nat} {sha256 : Sha256}
    (hr : r.volume = v) (hreading : Update.Reading r file absolute content)
    (hfed : sha256.Fed (content.take offset)) :
    (hashFile file content.length fuel offset sha256).Holds C (fun hash r' => Unwritten r r' ∧
      ∀ done, hash = some done → done.Fed content) r := by
  have hall : content.length ≤ offset → sha256.Fed content := by
    intro hend
    rwa [take_of_length_le hend] at hfed
  induction fuel generalizing offset sha256 r with
  | zero =>
    unfold hashFile
    refine ⟨.refl r, fun done hdone => ?_⟩
    split at hdone
    · cases hdone
    · rename_i hend
      cases hdone
      exact hall (Nat.not_lt.1 hend)
  | succ fuel ih =>
    unfold hashFile
    split
    · generalize hcount : min hashBufferBytes (content.length - offset) = count
      refine (readAt_holds h hr hreading).bind fun bytes r₁ h₁ => ?_
      obtain ⟨hsame, hreading₁, hbytes⟩ := h₁
      cases hupdate : bytes.bind sha256.update with
      | none => exact ⟨hsame, fun _ hnone => by cases hnone⟩
      | some next =>
        obtain ⟨received, hreceived, hupdate⟩ := Option.bind_eq_some_iff.1 hupdate
        have hnext : next.Fed (content.take (offset + count)) := by
          rw [take_add, ← hbytes received hreceived]
          exact hfed.update hupdate
        have hend : content.length ≤ offset + count → next.Fed content := by
          intro hend
          rwa [take_of_length_le hend] at hnext
        refine (ih (hsame.1.trans hr) hreading₁ hnext hend).mono fun hash r' hhash => ?_
        exact ⟨hsame.trans hhash.1, hhash.2⟩
    · rename_i hend
      refine ⟨.refl r, fun done hdone => ?_⟩
      cases hdone
      exact hall (Nat.not_lt.1 hend)

theorem hashOpened_holds (h : Observable C fs v) {size : Nat} (hr : r.volume = v)
    (hreading : Update.Reading r file absolute content) :
    (hashOpened file size).Holds C (fun hash r' => Unwritten r r' ∧
      ∀ done, hash = some done → done.Fed content ∧ size = content.length) r := by
  unfold hashOpened
  refine (h.holds (fun _ hv => hv.resolve_right id) hr).bind fun current r₁ h₁ => ?_
  have hsame : r₁ = r := by
    rcases h₁ with h₁ | ⟨-, h₁⟩
    · exact h₁.1
    · exact h₁
  rw [hsame]
  split
  · rename_i hcurrent
    have hsize : size = content.length := by
      rcases h₁ with ⟨-, h₁⟩ | ⟨hfailed, -⟩
      · exact h₁ absolute content hreading size hcurrent
      · exact absurd (hcurrent.symm.trans hfailed) (by simp [failureOf])
    rw [hsize]
    have hstart : Sha256.reset.Fed (content.take 0) := Sha256.fed_reset
    refine (hashFile_holds h hr hreading hstart).mono fun hash r' hhash => ?_
    exact ⟨hhash.1, fun done hdone => ⟨hhash.2 done hdone, rfl⟩⟩
  · exact ⟨.refl r, fun _ hnone => by cases hnone⟩

/-- What a probe reports is the size and the hash of the file. -/
def Probed (fs : FatFsUpdateFileSystem) (v : Volume) (path : Bytes)
    (probe : Except DeveloperFileStatus DeveloperFileInfo) : Prop :=
  ∀ info, probe = .ok info → ∃ absolute content, fs.resolve path = some absolute ∧
    v.lookup absolute = .file content ∧ info.size = content.length ∧
    sha256Digest content = some info.sha256

theorem probed_error (status : DeveloperFileStatus) :
    Probed fs v path (.error status) := fun _ herror => by cases herror

theorem probeDeveloperFile_holds (h : Observable C fs v) (hr : r.volume = v) :
    (probeDeveloperFile path).Holds C
      (fun probe r' => Unwritten r r' ∧ Probed fs v path probe) r := by
  unfold probeDeveloperFile
  refine (stat_holds h hr).bind fun info r₁ h₁ => ?_
  obtain ⟨rfl, -⟩ := h₁
  split
  · exact ⟨.refl _, probed_error _⟩
  · exact ⟨.refl _, probed_error _⟩
  · refine (h.holds (fun _ hv => hv.resolve_right id) hr).bind fun file r₂ h₂ => ?_
    have hsame₂ : Unwritten r₁ r₂ := by
      rcases h₂ with h₂ | ⟨-, rfl⟩
      · exact ⟨h₂.1, h₂.2.2.1⟩
      · exact .refl _
    cases file with
    | none => exact ⟨hsame₂, probed_error _⟩
    | some file =>
      have hopened : ∃ absolute content, fs.resolve path = some absolute ∧
          Update.Reading r₂ file absolute content := by
        rcases h₂ with ⟨-, -, -, h₂⟩ | ⟨hfailed, -⟩
        · exact h₂ file rfl
        · exact absurd hfailed (by simp [failureOf])
      obtain ⟨absolute, content, hresolve, hreading⟩ := hopened
      have hr₂ : r₂.volume = v := hsame₂.1.trans hr
      refine (hashOpened_holds h hr₂ hreading).bind fun sha256 r₃ h₃ => ?_
      obtain ⟨hsame₃, hhash⟩ := h₃
      refine (closeRead_holds h (hsame₃.1.trans hr₂)).bind fun closed r₄ hsame₄ => ?_
      have hsame := (hsame₂.trans hsame₃).trans hsame₄
      split
      · exact ⟨hsame, probed_error _⟩
      · rename_i digest hdigest
        refine ⟨hsame, fun info hinfo => ⟨absolute, content, hresolve, ?_, ?_⟩⟩
        · rw [← hr₂]
          exact hreading.stored
        · cases hinfo
          cases closed with
          | false => cases hdigest
          | true =>
            obtain ⟨done, hdone, hfinal⟩ := Option.bind_eq_some_iff.1 hdigest
            exact ⟨(hhash done hdone).2, (hhash done hdone).1.final hfinal⟩
  · exact ⟨.refl _, probed_error _⟩

end Observing

/-! ### Searching for a sibling name -/

section Searching

variable {C : Contract fileSystemSignature FsState} {fs : FatFsUpdateFileSystem} {r : FsState}
  {request : UploadRequest} {kind : UInt8} {name : Bytes} {failed : Bytes → Prop}

theorem mem_siblingNames : name ∈ siblingNames request kind ↔
    (name ∈ preferredNames (directoryPart request.path) kind request.requestToken ∨
      name ∈ fallbackNames (directoryPart request.path) kind request.requestToken
        developerFilePathBytes) ∧ foldEqual name request.path = false := by
  rw [siblingNames, mem_filter, mem_append, Bool.not_eq_true']

/-- A stat tells what is under a name, and where it fails `failed` holds of the name. -/
def StatTells (C : Contract fileSystemSignature FsState) (fs : FatFsUpdateFileSystem) (r : FsState)
    (failed : Bytes → Prop) (name : Bytes) : Prop :=
  (UpdateFileSystem.stat name).Holds C (fun answer r' => r' = r ∧
    (∀ info, answer = some info → ∃ path, fs.resolve name = some path ∧
      info = statOf (r.volume.lookup path)) ∧ (answer = none → failed name)) r

/-- Where a search for a sibling name ends: at a name that is not taken, at one whose stat failed,
or at no name. -/
def Sought (fs : FatFsUpdateFileSystem) (request : UploadRequest) (kind : UInt8) (v : Volume)
    (failed : Bytes → Prop) (found : Bool) (name : Bytes) : Prop :=
  match found with
  | true => name ∈ siblingNames request kind ∧
      ∃ path, fs.resolve name = some path ∧ v.lookup path = .missing
  | false => name = [] ∨ (name ∈ siblingNames request kind ∧ failed name)

variable {destination : Bytes}

theorem tryNames_holds {names : List Bytes} (hstat : ∀ name, StatTells C fs r failed name)
    (hnames : ∀ name ∈ names, foldEqual name request.path = false → name ∈ siblingNames request kind) :
    (tryNames request.path names destination).Holds C (fun reply r' => r' = r ∧
      ∀ found, reply.1 = some found → Sought fs request kind r.volume failed found reply.2) r := by
  induction names generalizing destination with
  | nil => exact ⟨rfl, fun _ hnone => by cases hnone⟩
  | cons name rest ih =>
    have hrest := fun name' hname' => hnames name' (mem_cons_of_mem name hname')
    unfold tryNames
    split
    · exact ih hrest
    · rename_i hdiffer
      have hsibling := hnames name mem_cons_self (Bool.not_eq_true _ ▸ hdiffer)
      refine Program.Holds.bind (hstat name) fun answer r' hanswer => ?_
      obtain ⟨rfl, htells, hfailed⟩ := hanswer
      cases answer with
      | none =>
        refine ⟨rfl, fun found hfound => ?_⟩
        cases hfound
        exact .inr ⟨hsibling, hfailed rfl⟩
      | some info =>
        dsimp only
        split
        · rename_i htype
          refine ⟨rfl, fun found hfound => ?_⟩
          cases hfound
          obtain ⟨path, hpath, rfl⟩ := htells info rfl
          refine ⟨hsibling, path, hpath, ?_⟩
          cases hnode : r'.volume.lookup path <;> rw [hnode] at htype <;>
            first | rfl | cases htype
        · exact ih hrest

theorem selectFallback_holds (hstat : ∀ name, StatTells C fs r failed name)
    (hdestination : destination = [] ∨
      (directoryPart request.path).length + 1 < developerFilePathBytes) :
    (selectFallback request.path kind request.requestToken destination
      developerFilePathBytes).Holds C
      (fun reply r' => r' = r ∧ Sought fs request kind r.volume failed reply.1 reply.2) r := by
  unfold selectFallback
  dsimp only
  split
  · rename_i hlong
    exact ⟨rfl, .inl (hdestination.resolve_right (Nat.not_lt.2 hlong))⟩
  · refine (tryNames_holds hstat fun name hname hdiffer =>
      mem_siblingNames.2 ⟨.inr hname, hdiffer⟩).bind fun reply r' hreply => ?_
    obtain ⟨rfl, hfound⟩ := hreply
    obtain ⟨found, name⟩ := reply
    cases found with
    | none => exact ⟨rfl, .inl rfl⟩
    | some found => exact ⟨rfl, hfound found rfl⟩

theorem search_holds (hstat : ∀ name, StatTells C fs r failed name) :
    (selectSiblingPath request.path kind request.requestToken [] developerFilePathBytes).Holds C
      (fun reply r' => r' = r ∧ Sought fs request kind r.volume failed reply.1 reply.2) r := by
  unfold selectSiblingPath
  dsimp only
  split
  · rename_i hfits
    refine (tryNames_holds hstat fun name hname hdiffer =>
      mem_siblingNames.2 ⟨.inl hname, hdiffer⟩).bind fun reply r' hreply => ?_
    obtain ⟨rfl, hfound⟩ := hreply
    obtain ⟨found, name⟩ := reply
    cases found with
    | none =>
      refine selectFallback_holds hstat (.inr ?_)
      rw [preferredNameBytes] at hfits
      omega
    | some found => exact ⟨rfl, hfound found rfl⟩
  · exact selectFallback_holds hstat (.inl rfl)

end Searching

/-! ### Calls that change the card -/

/-- A contract under which a call may be made where `inv` holds of every volume it passes through. -/
structure Attends (C : Contract fileSystemSignature FsState) (fs : FatFsUpdateFileSystem)
    (inv : Volume → Prop) : Prop where
  pre : ∀ op r, (∀ v, Midway fs op r v → inv v) → C.pre op r
  post : ∀ op r answer r', C.post op r answer r' → Outcome fs op r answer r'

section Changing

variable {C : Contract fileSystemSignature FsState} {fs : FatFsUpdateFileSystem}
  {inv : Volume → Prop} {r : FsState} {name : Bytes}

theorem Attends.observable (h : Attends C fs inv) {v : Volume} (hinv : inv v) : Observable C fs v where
  pre op r _ hmid := by
    apply h.pre
    intro v' hv'
    rw [hmid v' hv']
    exact hinv
  post := h.post

theorem Attends.removeFile_holds (h : Attends C fs inv) (hinv : inv r.volume) :
    (UpdateFileSystem.removeFile name).Holds C (fun removed r' => r'.handles = r.handles ∧
      if removed = true then
        ∃ path, fs.resolve name = some path ∧ Sets r.volume r'.volume path .missing
      else r'.volume = r.volume) r := by
  refine ((h.observable hinv).holds (fun _ hv => hv.resolve_right id) rfl).mono
    fun answer r' hafter => ?_
  rcases hafter with hafter | ⟨rfl, rfl⟩
  · obtain ⟨-, hhandles, hkept, hgone⟩ := hafter
    cases answer with
    | false => exact ⟨hhandles, hkept rfl⟩
    | true =>
      obtain ⟨path, hpath, -, hsets⟩ := hgone rfl
      exact ⟨hhandles, path, hpath, hsets⟩
  · exact ⟨rfl, rfl⟩

theorem Attends.closeWrite_holds (h : Attends C fs inv) (hinv : inv r.volume) :
    UpdateFileSystem.closeWrite.Holds C (fun _ r' => r'.volume = r.volume) r := by
  refine ((h.observable hinv).holds (fun _ hv => hv.resolve_right id) rfl).mono
    fun answer r' hafter => ?_
  rcases hafter with hafter | ⟨-, rfl⟩
  · exact hafter.1
  · rfl

/-- A rename leaves the card in one of three states, through states where `inv` must hold. -/
theorem Attends.rename_holds (h : Attends C fs inv) {source destination : Bytes}
    {P : Bool → Volume → Prop} (hinv : inv r.volume) (hsame : P false r.volume)
    (hlost : ∀ d v, fs.resolve destination = some d → Sets r.volume v d .missing → inv v ∧ P false v)
    (hmoved : ∀ s d v content answer, fs.resolve source = some s → fs.resolve destination = some d →
      fold s ≠ fold d → r.volume.lookup s = .file content → Moves r.volume v s d content →
        inv v ∧ P answer v) :
    (UpdateFileSystem.rename source destination).Holds C
      (fun answer r' => r'.handles = r.handles ∧ P answer r'.volume) r := by
  refine ⟨h.pre _ _ fun v hv => ?_, fun answer r' hpost => ?_⟩
  · rcases hv with rfl | ⟨s, d, hs, hd, hne, -, hgone | ⟨content, hcontent, hmoves⟩⟩
    · exact hinv
    · exact (hlost d v hd hgone).1
    · exact (hmoved s d v content true hs hd hne hcontent hmoves).1
  · rcases h.post _ _ _ _ hpost with ⟨hhandles, hafter⟩ | ⟨rfl, rfl⟩
    · refine ⟨hhandles, ?_⟩
      rcases hafter with ⟨rfl, rfl⟩ | ⟨s, d, hs, hd, hne, hrenamed⟩
      · exact hsame
      · cases hrenamed with
        | untouched hvolume =>
          rw [hvolume]
          exact hsame
        | lost _ hvolume => exact (hlost d _ hd hvolume).2
        | moved _ content hcontent _ hvolume => exact (hmoved s d _ content _ hs hd hne hcontent hvolume).2
    · exact ⟨rfl, hsame⟩

end Changing

namespace Transfer

variable {f : Transfer} {v v' : Volume} {r : FsState} {path name : Bytes} {kind : UInt8}

theorem attends (f : Transfer) : Attends f.contract f.upload.fs f.Safe :=
  ⟨fun _ _ h => h, fun _ _ _ _ h => h.1⟩

theorem observable (h : f.Safe v) : Observable f.contract f.upload.fs v := f.attends.observable h

/-! ### Sibling names -/

theorem sibling_apart (hname : name ∈ siblingNames f.upload.request kind)
    (hresolve : f.upload.fs.resolve name = some path) : fold path ≠ fold f.target := by
  have hdiffer := (mem_siblingNames.1 hname).2
  intro hsame
  rw [← resolve_eq_absolute hresolve, target, Upload.target, fold_absolute, ← foldEqual_iff, hdiffer] at hsame
  cases hsame

/-- Where a search for a sibling name ends: at a name that is not taken, at one whose stat failed,
or at no name. -/
def Selected (f : Transfer) (kind : UInt8) (v : Volume) (found : Bool) (name : Bytes) : Prop :=
  match found with
  | true => name ∈ siblingNames f.upload.request kind ∧
      ∃ path, f.upload.fs.resolve name = some path ∧ v.lookup path = .missing
  | false => name = [] ∨ (name ∈ siblingNames f.upload.request kind ∧ (f.careful →
      ∀ path, f.upload.fs.resolve name = some path → ¬ f.upload.Endangered f.before f.guarded path v))

/-- The stat of the search: it tells whether the name is taken, and where it fails the upload is
not careful or the name is not taken. -/
theorem stat_sibling_holds (hsafe : f.Safe r.volume) :
    (UpdateFileSystem.stat name).Holds f.contract (fun answer r' => r' = r ∧
      (∀ info, answer = some info → ∃ path, f.upload.fs.resolve name = some path ∧
        info = statOf (r.volume.lookup path)) ∧
      (answer = none → f.careful → ∀ path, f.upload.fs.resolve name = some path →
        ¬ f.upload.Endangered f.before f.guarded path r.volume)) r := by
  refine ⟨fun v hv => ?_, fun answer r' hpost => ?_⟩
  · rw [hv.resolve_right id]
    exact hsafe
  · obtain ⟨hafter, hcareful⟩ := hpost
    have hstat : r' = r ∧ ∀ info, answer = some info → ∃ path, f.upload.fs.resolve name = some path ∧
        info = statOf (r.volume.lookup path) := by
      rcases hafter with hafter | ⟨rfl, rfl⟩
      · exact hafter
      · exact ⟨rfl, fun _ hnone => by cases hnone⟩
    refine ⟨hstat.1, hstat.2, fun hnone hc path hpath hendangered => ?_⟩
    exact hcareful hc ⟨hnone, path, hpath, hendangered⟩

theorem selectSiblingPath_holds (hsafe : f.Safe r.volume) :
    (selectSiblingPath f.upload.request.path kind f.upload.request.requestToken []
      developerFilePathBytes).Holds f.contract
      (fun reply r' => r' = r ∧ f.Selected kind r.volume reply.1 reply.2) r := by
  refine (search_holds fun name => stat_sibling_holds hsafe).mono fun reply r' hreply => ⟨hreply.1, ?_⟩
  obtain ⟨found, name⟩ := reply
  cases found with
  | true => exact hreply.2
  | false => exact hreply.2

/-! ### Where the target is -/

/-- The old target aside, under the backup name. -/
structure Aside (f : Transfer) (temporary backup : Bytes) (v : Volume) (held : Bytes) : Prop where
  located : f.upload.fs.resolve backup = some held
  name : backup ∈ siblingNames f.upload.request 98
  present : f.before.lookup f.target ≠ .missing
  free : f.careful → ¬ f.guarded held
  apart : ∀ path, f.upload.fs.resolve temporary = some path → fold path ≠ fold held
  kept : v.lookup held = f.before.lookup f.target

/-- The stages of an upload: the target as it was, aside, or replaced. A target that was there can
only have a backup name while it is as it was. -/
inductive Stage (f : Transfer) (temporary backup : Bytes) (v : Volume) : Prop
  | ready (htarget : v.lookup f.target = f.before.lookup f.target)
      (hbackup : backup = [] ∨ f.before.lookup f.target ≠ .missing)
  | aside {held : Bytes} (haside : f.Aside temporary backup v held)
      (hgone : v.lookup f.target = .missing)
  | placed (hcomplete : f.upload.Complete f.whole) (htarget : v.lookup f.target = .file f.whole)

variable {temporary backup held : Bytes} {node : FatFs.Node}

theorem Aside.ne_target (h : f.Aside temporary backup v held) : fold held ≠ fold f.target :=
  sibling_apart h.name h.located

theorem Stage.kept (h : f.Stage temporary backup v) : f.TargetKept v := by
  cases h with
  | ready htarget => exact .same htarget
  | aside haside hgone => exact .aside ⟨_, haside.name, haside.located⟩ hgone haside.kept
  | placed hcomplete htarget => exact .replaced hcomplete htarget

theorem Stage.safe (h : f.Stage temporary backup v) (hspared : f.careful → f.Spared v) : f.Safe v :=
  ⟨h.kept, hspared⟩

theorem Stage.sets (h : f.Stage temporary backup v)
    (hpath : f.upload.fs.resolve temporary = some path) (htarget : fold path ≠ fold f.target)
    (hsets : Sets v v' path node) : f.Stage temporary backup v' := by
  have hsame : v'.lookup f.target = v.lookup f.target := hsets.off (Ne.symm htarget)
  cases h with
  | ready hready hbackup => exact .ready (hsame.trans hready) hbackup
  | @aside held haside hgone =>
    have hheld : v'.lookup held = v.lookup held := hsets.off (Ne.symm (haside.apart path hpath))
    exact .aside { haside with kept := hheld.trans haside.kept } (hsame.trans hgone)
  | placed hcomplete hplaced => exact .placed hcomplete (hsame.trans hplaced)

/-! ### Calls that change the card -/

theorem removeFile_holds (hsafe : f.Safe r.volume) :
    (UpdateFileSystem.removeFile name).Holds f.contract (fun removed r' =>
      if removed = true then
        ∃ path, f.upload.fs.resolve name = some path ∧ Sets r.volume r'.volume path .missing
      else r'.volume = r.volume) r :=
  (f.attends.removeFile_holds hsafe).mono fun _ _ h => h.2

theorem closeWrite_holds (hsafe : f.Safe r.volume) :
    UpdateFileSystem.closeWrite.Holds f.contract (fun _ r' => r'.volume = r.volume) r :=
  f.attends.closeWrite_holds hsafe

theorem rename_holds {source destination : Bytes} {P : Bool → Volume → Prop}
    (hsafe : f.Safe r.volume) (hsame : P false r.volume)
    (hlost : ∀ d v, f.upload.fs.resolve destination = some d → Sets r.volume v d .missing →
      f.Safe v ∧ P false v)
    (hmoved : ∀ s d v content answer, f.upload.fs.resolve source = some s →
      f.upload.fs.resolve destination = some d → fold s ≠ fold d →
      r.volume.lookup s = .file content → Moves r.volume v s d content → f.Safe v ∧ P answer v) :
    (UpdateFileSystem.rename source destination).Holds f.contract
      (fun answer r' => P answer r'.volume) r :=
  (f.attends.rename_holds hsafe hsame hlost hmoved).mono fun _ _ h => h.2

/-! ### The end of a failed upload -/

/-- What `Abort` finds: the target at some stage, and a temporary name under which nothing of
another may be. -/
structure Parked (f : Transfer) (t : DeveloperFileTransaction) (v : Volume) : Prop where
  attached : t.fileSystem = true
  path : t.targetPath = f.upload.request.path
  temporary : ∀ path, f.upload.fs.resolve t.temporaryPath = some path →
    fold path ≠ fold f.target ∧ (f.careful → ¬ f.guarded path)
  stage : f.Stage t.temporaryPath t.backupPath v
  spared : f.careful → f.Spared v

/-- How a failed call ends. -/
def Settled (f : Transfer) (t : DeveloperFileTransaction) (r : FsState) : Prop :=
  Idle t ∧ f.Safe r.volume

variable {t : DeveloperFileTransaction}

theorem Parked.safe (h : f.Parked t v) : f.Safe v := h.stage.safe h.spared

theorem removeTemporary_holds (h : f.Parked t r.volume) :
    (UpdateFileSystem.removeFile t.temporaryPath).Holds f.contract
      (fun _ r' => f.Parked t r'.volume) r := by
  refine (removeFile_holds h.safe).mono fun removed r' hafter => ?_
  cases removed with
  | false =>
    rw [show r'.volume = r.volume from hafter]
    exact h
  | true =>
    obtain ⟨path, hpath, hsets⟩ := hafter
    obtain ⟨htarget, hfree⟩ := h.temporary path hpath
    exact { h with
      stage := h.stage.sets hpath htarget hsets
      spared := fun hc => (h.spared hc).sets (hfree hc) hsets }

/-- The old target goes back from the backup name, unless the rename does nothing or only clears
the way. -/
theorem restore_holds (haside : f.Aside temporary backup r.volume held) (hsafe : f.Safe r.volume) :
    (UpdateFileSystem.rename backup f.upload.request.path).Holds f.contract (fun restored r' =>
      (f.careful → f.Spared r'.volume) ∧
        (r'.volume.lookup f.target = f.before.lookup f.target ∨
          (restored = false ∧ f.Aside temporary backup r'.volume held ∧
            (r'.volume.lookup f.target = .missing ∨
              r'.volume.lookup f.target = r.volume.lookup f.target)))) r := by
  refine rename_holds (P := fun restored v => (f.careful → f.Spared v) ∧
    (v.lookup f.target = f.before.lookup f.target ∨
      (restored = false ∧ f.Aside temporary backup v held ∧
        (v.lookup f.target = .missing ∨ v.lookup f.target = r.volume.lookup f.target))))
    hsafe ⟨hsafe.spared, .inr ⟨rfl, haside, .inr rfl⟩⟩ ?_ ?_
  · intro d v hd hsets
    obtain rfl : f.target = d := located hd
    have hspared : f.careful → f.Spared v := fun hc => (hsafe.spared hc).sets f.free_target hsets
    have haside' : f.Aside temporary backup v held :=
      { haside with kept := (hsets.off haside.ne_target).trans haside.kept }
    exact ⟨(Stage.aside haside' hsets.at).safe hspared, hspared, .inr ⟨rfl, haside', .inl hsets.at⟩⟩
  · intro s d v content restored hs hd hne hcontent hmoves
    obtain rfl : f.target = d := located hd
    obtain rfl : held = s := Option.some.inj (haside.located.symm.trans hs)
    have htarget : v.lookup f.target = f.before.lookup f.target := by
      rw [hmoves f.target, if_pos rfl, ← haside.kept, hcontent]
    have hspared : f.careful → f.Spared v :=
      fun hc => (hsafe.spared hc).moves (haside.free hc) f.free_target hmoves
    exact ⟨⟨.same htarget, hspared⟩, hspared, .inl htarget⟩

theorem restoreTarget_holds (h : f.Parked t r.volume) :
    t.restoreTarget.Holds f.contract (fun _ r' => f.Safe r'.volume) r := by
  unfold restoreTarget
  split
  · rename_i hback
    rw [Bool.and_eq_true, Bool.not_eq_true', isEmpty_eq_false_iff] at hback
    rw [h.path]
    refine (stat_holds (observable h.safe) rfl).bind fun info r₁ h₁ => ?_
    obtain ⟨rfl, hstat⟩ := h₁
    split
    · rename_i htype
      -- the target is missing, so it must be the one that was set aside
      have hmissing : r₁.volume.lookup f.target = .missing := by
        obtain ⟨stat, rfl, hmissing⟩ := Option.map_eq_some_iff.1 htype
        obtain ⟨path, hpath, rfl⟩ := hstat stat rfl
        obtain rfl : f.target = path := located hpath
        cases hnode : r₁.volume.lookup f.target <;> rw [hnode] at hmissing <;>
          first | rfl | cases hmissing
      cases h.stage with
      | ready htarget hbackup =>
        exact absurd (htarget.symm.trans hmissing) (hbackup.resolve_left hback.2)
      | aside haside hgone =>
        refine (restore_holds haside h.safe).bind fun restored r₂ h₂ => ?_
        obtain ⟨hspared, htarget | ⟨-, haside, htarget⟩⟩ := h₂
        · exact ⟨.same htarget, hspared⟩
        · have hstill : r₂.volume.lookup f.target = .missing := by
            rcases htarget with htarget | htarget
            · exact htarget
            · exact htarget.trans hgone
          exact (Stage.aside haside hstill).safe hspared
      | placed _ htarget => exact absurd (htarget.symm.trans hmissing) (by simp)
    · exact h.safe
  · exact h.safe

theorem abort_holds (h : f.Parked t r.volume) : t.abort.Holds f.contract (fun t' r' => f.Settled t' r') r := by
  have hclosed : (if t.writeFile = true then UpdateFileSystem.closeWrite else pure true).Holds
      f.contract (fun _ r' => f.Parked t r'.volume) r := by
    split
    · refine (closeWrite_holds h.safe).mono fun _ r' hvolume => ?_
      rw [hvolume]
      exact h
    · exact h
  unfold abort
  refine hclosed.bind fun _ r₁ h₁ => ?_
  have hremoved : (if (t.fileSystem && !t.temporaryPath.isEmpty) = true then
      UpdateFileSystem.removeFile t.temporaryPath else pure true).Holds f.contract
      (fun _ r' => f.Parked t r'.volume) r₁ := by
    split
    · exact removeTemporary_holds h₁
    · exact h₁
  refine hremoved.bind fun _ r₂ h₂ => ?_
  exact (restoreTarget_holds h₂).bind fun _ r₃ hsafe => ⟨idle_released t, hsafe⟩

variable {status : DeveloperFileStatus}

theorem fail_holds (h : f.Parked t r.volume) :
    (t.fail status).Holds f.contract (fun reply r' => f.Settled reply.2 r') r := by
  unfold fail
  exact (abort_holds h).bind fun t' r' hsettled => hsettled

/-! ### The beginning -/

/-- The fields a transaction keeps from its request. -/
structure Asked (f : Transfer) (t : DeveloperFileTransaction) : Prop where
  attached : t.fileSystem = true
  path : t.targetPath = f.upload.request.path
  token : t.requestToken = f.upload.request.requestToken
  size : t.expectedSize = f.upload.request.contentLength
  digest : t.expectedSha256 = f.upload.request.expectedSha256
  existed : t.targetExisted = true → f.before.lookup f.target ≠ .missing
  missing : t.targetExisted = false → f.before.lookup f.target = .missing

/-- An upload whose body is being received into the temporary file. -/
structure Receiving (f : Transfer) (t : DeveloperFileTransaction) (fed : Bytes) (r : FsState) :
    Prop where
  asked : f.Asked t
  active : t.active = true
  unfinished : t.finished = false
  stored : t.discard = false
  opened : t.writeFile = true
  backup : t.backupPath = []
  received : t.received = fed.length
  hash : t.sha256.Fed fed
  temporary : ∃ path, f.upload.fs.resolve t.temporaryPath = some path ∧
    fold path ≠ fold f.target ∧ (f.careful → ¬ f.guarded path) ∧ Writing r path fed
  untouched : r.volume.lookup f.target = f.before.lookup f.target
  spared : f.careful → f.Spared r.volume

/-- An upload of what the target holds already. -/
structure Discarding (f : Transfer) (t : DeveloperFileTransaction) (r : FsState) : Prop where
  asked : f.Asked t
  active : t.active = true
  unfinished : t.finished = false
  discard : t.discard = true
  closed : t.writeFile = false
  temporary : t.temporaryPath = []
  backup : t.backupPath = []
  identical : ∃ content, f.before.lookup f.target = .file content ∧ f.upload.Complete content
  untouched : r.volume.lookup f.target = f.before.lookup f.target
  spared : f.careful → f.Spared r.volume

/-- The card before the temporary file is made: only directories are new. -/
structure Laid (f : Transfer) (v : Volume) : Prop where
  untouched : v.lookup f.target = f.before.lookup f.target
  spared : f.Spared v
  searching : f.upload.Searching f.before v

theorem resolve_nil (fs : FatFsUpdateFileSystem) : fs.resolve [] = none := by
  have hinvalid : validateRelativePath [] fs.pathPolicy = false := by
    cases fs.pathPolicy <;> rfl
  unfold FatFsUpdateFileSystem.resolve
  cases fs.volumeRoot with
  | none => rfl
  | some root => simp [hinvalid]

theorem Laid.safe (h : f.Laid v) : f.Safe v := ⟨.same h.untouched, fun _ => h.spared⟩

theorem laid_before (f : Transfer) : f.Laid f.before := ⟨rfl, fun _ _ => rfl, fun _ _ => rfl⟩

theorem Laid.parked (h : f.Laid v) (hattached : t.fileSystem = true)
    (hpath : t.targetPath = f.upload.request.path) (hbackup : t.backupPath = [])
    (htemporary : ∀ path, f.upload.fs.resolve t.temporaryPath = some path →
      fold path ≠ fold f.target ∧ (f.careful → ¬ f.guarded path)) : f.Parked t v where
  attached := hattached
  path := hpath
  temporary := htemporary
  stage := .ready h.untouched (.inl hbackup)
  spared := fun _ => h.spared

theorem Laid.parked_nil (h : f.Laid v) (hattached : t.fileSystem = true)
    (hpath : t.targetPath = f.upload.request.path) (htemporary : t.temporaryPath = [])
    (hbackup : t.backupPath = []) : f.Parked t v := by
  refine h.parked hattached hpath hbackup fun path hpath => ?_
  rw [htemporary, resolve_nil] at hpath
  cases hpath

theorem length_dropWhile_ge {p : UInt8 → Bool} (value : UInt8) (hvalue : p value = false)
    (front rest : Bytes) : rest.length < ((front ++ value :: rest).dropWhile p).length := by
  induction front with
  | nil => simp [hvalue]
  | cons first front ih =>
    rw [cons_append, dropWhile_cons]
    split
    · exact ih
    · simp only [length_cons, length_append]
      omega

theorem length_parentPaths_lt {read rest path : Bytes} (hpath : path ∈ parentPaths read rest) :
    path.length < (directoryPart (read ++ rest)).length := by
  induction rest generalizing read with
  | nil => cases hpath
  | cons value rest ih =>
    have hlater : path ∈ parentPaths (read ++ [value]) rest →
        path.length < (directoryPart (read ++ value :: rest)).length := by
      intro hpath
      have hlength := ih hpath
      rwa [append_assoc, singleton_append] at hlength
    unfold parentPaths at hpath
    split at hpath
    · rename_i hslash
      rcases mem_cons.1 hpath with rfl | hpath
      · have hlength := length_dropWhile_ge (p := (· != slash)) value (by simp [hslash])
          rest.reverse path.reverse
        simpa [directoryPart] using hlength
      · exact hlater hpath
    · exact hlater hpath

theorem length_directoryPart_le (path : Bytes) : (directoryPart path).length ≤ path.length := by
  have hlength := (dropWhile_sublist (· != slash) (l := path.reverse)).length_le
  rw [length_reverse] at hlength
  rwa [directoryPart, length_reverse]

theorem length_directoryPart_le_sibling {request : UploadRequest} (hname : name ∈ siblingNames request kind) :
    (directoryPart request.path).length ≤ name.length := by
  rcases (mem_siblingNames.1 hname).1 with hname | hname
  all_goals
    obtain ⟨attempt, -, rfl⟩ := mem_map.1 hname
    simp only [length_append]
    omega

/-- A directory above the target is neither the target nor one of its siblings. -/
theorem parent_apart {parent : Bytes} (hparent : parent ∈ parentPaths [] f.upload.request.path)
    (hresolve : f.upload.fs.resolve parent = some path) :
    fold path ≠ fold f.target ∧ ∀ other, f.upload.IsTemporary other → fold path ≠ fold other := by
  have hshort := length_parentPaths_lt hparent
  rw [nil_append] at hshort
  have hapart : ∀ name : Bytes, (directoryPart f.upload.request.path).length ≤ name.length →
      fold path ≠ fold (f.upload.absolute name) := by
    intro name hlong hsame
    rw [← resolve_eq_absolute hresolve, fold_absolute] at hsame
    have hlength := congrArg List.length hsame
    rw [length_fold, length_fold] at hlength
    omega
  refine ⟨hapart _ (length_directoryPart_le _), ?_⟩
  rintro other ⟨name, hname, hother⟩
  rw [← resolve_eq_absolute hother]
  exact hapart name (length_directoryPart_le_sibling hname)

theorem Laid.directory {absolute : Bytes} (h : f.Laid v) (htarget : fold absolute ≠ fold f.target)
    (hsiblings : ∀ other, f.upload.IsTemporary other → fold absolute ≠ fold other)
    (hmissing : v.lookup absolute = .missing) (hsets : Sets v v' absolute .directory) :
    f.Laid v' where
  untouched := (hsets.off (Ne.symm htarget)).trans h.untouched
  spared := h.spared.sets (h.spared.free hmissing) hsets
  searching other hother := (hsets.off (Ne.symm (hsiblings other hother))).trans (h.searching other hother)

theorem createDirectories_holds {paths : List Bytes} (h : f.Laid r.volume)
    (hpaths : ∀ path ∈ paths, path ∈ parentPaths [] f.upload.request.path) :
    (createDirectories paths).Holds f.contract (fun _ r' => f.Laid r'.volume) r := by
  induction paths generalizing r with
  | nil => exact h
  | cons path rest ih =>
    have hmade : ∀ v', (∃ absolute, f.upload.fs.resolve path = some absolute ∧
        r.volume.lookup absolute = .missing ∧ Sets r.volume v' absolute .directory) →
        f.Laid v' := by
      rintro v' ⟨absolute, hresolve, hmissing, hsets⟩
      obtain ⟨htarget, hsiblings⟩ := parent_apart (hpaths path mem_cons_self) hresolve
      exact h.directory htarget hsiblings hmissing hsets
    have hcreate : (UpdateFileSystem.createDirectory path).Holds f.contract
        (fun _ r' => f.Laid r'.volume) r := by
      refine ⟨fun v' hv' => ?_, fun answer r' hpost => ?_⟩
      · rcases hv' with rfl | hv'
        · exact h.safe
        · exact (hmade v' hv').safe
      · rcases hpost.1 with ⟨-, -, hvolume | hvolume⟩ | ⟨-, rfl⟩
        · change f.Laid r'.volume
          rw [hvolume]
          exact h
        · exact hmade _ hvolume
        · exact h
    unfold createDirectories
    refine hcreate.bind fun created r' h' => ?_
    split
    · exact ih h' fun path hpath => hpaths path (mem_cons_of_mem _ hpath)
    · exact h'

/-- Where a transaction is that has received `fed`, unless it has failed. -/
inductive Underway (f : Transfer) (t : DeveloperFileTransaction) (fed : Bytes) (r : FsState) : Prop
  | settled (h : f.Settled t r)
  | receiving (h : f.Receiving t fed r)
  | discarding (h : f.Discarding t r)

/-- A transaction whose `Begin` has set its fields. -/
structure Prepared (f : Transfer) (t : DeveloperFileTransaction) : Prop where
  asked : f.Asked t
  unfinished : t.finished = false
  closed : t.writeFile = false
  temporary : t.temporaryPath = []
  backup : t.backupPath = []
  received : t.received = 0
  hash : t.sha256 = Sha256.reset

theorem fail_prepared_holds (h : f.Laid r.volume) (hprepared : f.Prepared t) :
    (t.fail status).Holds f.contract (fun reply r' => f.Underway reply.2 [] r') r :=
  (fail_holds (h.parked_nil hprepared.asked.attached hprepared.asked.path hprepared.temporary
    hprepared.backup)).mono fun _ _ hsettled => .settled hsettled

theorem createFileFresh_holds (hsafe : f.Safe r.volume) :
    (UpdateFileSystem.createFileFresh name).Holds f.contract (fun opened r' =>
      if opened = true then ∃ path, f.upload.fs.resolve name = some path ∧
        Sets r.volume r'.volume path (.file []) ∧ Writing r' path []
      else r' = r) r := by
  refine ((observable hsafe).holds (fun _ hv => hv.resolve_right id) rfl).mono
    fun answer r' hafter => ?_
  rcases hafter with hafter | ⟨rfl, rfl⟩
  · cases answer with
    | true => exact hafter.2
    | false => exact hafter
  · rfl

/-- The name a search found is free, and so is one it got stuck on where the upload is careful. -/
theorem Laid.selected {found : Bool} (h : f.Laid v) (hselected : f.Selected 117 v found name)
    (hresolve : f.upload.fs.resolve name = some path) :
    fold path ≠ fold f.target ∧ (f.careful → ¬ f.guarded path) := by
  cases found with
  | true =>
    obtain ⟨hname, other, hother, hmissing⟩ := hselected
    obtain rfl : path = other := Option.some.inj (hresolve.symm.trans hother)
    exact ⟨sibling_apart hname hresolve, fun _ => h.spared.free hmissing⟩
  | false =>
    rcases hselected with rfl | ⟨hname, hstuck⟩
    · rw [resolve_nil] at hresolve
      cases hresolve
    · refine ⟨sibling_apart hname hresolve, fun hc hguarded => ?_⟩
      exact hstuck hc path hresolve ⟨⟨name, hname, hresolve⟩, hguarded, h.searching⟩

theorem openTemporary_holds (h : f.Laid r.volume) (hprepared : f.Prepared t) (hstored : t.discard = false) :
    t.openTemporary.Holds f.contract (fun reply r' => f.Underway reply.2 [] r') r := by
  unfold openTemporary
  refine (getFreeSpace_holds (observable h.safe) rfl).bind fun free r₁ hr₁ => ?_
  rw [hr₁]
  cases free with
  | none => exact fail_prepared_holds h hprepared
  | some free =>
    dsimp only
    split
    · exact fail_prepared_holds h hprepared
    · have hcreate : (createDirectories (parentPaths [] t.targetPath)).Holds f.contract
          (fun _ r' => f.Laid r'.volume) r := by
        rw [hprepared.asked.path]
        exact createDirectories_holds h fun _ hpath => hpath
      refine hcreate.bind fun created r₂ h₂ => ?_
      split
      · exact fail_prepared_holds h₂ hprepared
      · have hselect : (selectSiblingPath t.targetPath 117 t.requestToken t.temporaryPath
            developerFilePathBytes).Holds f.contract
            (fun reply r' => r' = r₂ ∧ f.Selected 117 r₂.volume reply.1 reply.2) r₂ := by
          rw [hprepared.asked.path, hprepared.asked.token, hprepared.temporary]
          exact selectSiblingPath_holds h₂.safe
        refine hselect.bind fun reply r₃ h₃ => ?_
        obtain ⟨rfl, hselected⟩ := h₃
        obtain ⟨found, name⟩ := reply
        have hparked : f.Parked { t with temporaryPath := name } r₃.volume :=
          h₂.parked hprepared.asked.attached hprepared.asked.path hprepared.backup
            fun _ hresolve => h₂.selected hselected hresolve
        have hfailed : ∀ status : DeveloperFileStatus, (fail status
            { t with temporaryPath := name }).Holds f.contract
            (fun reply r' => f.Underway reply.2 [] r') r₃ := fun status =>
          (fail_holds hparked).mono fun _ _ hsettled => .settled hsettled
        split
        · exact hfailed _
        · rename_i hfound
          obtain rfl : found = true := Bool.not_eq_false _ ▸ hfound
          obtain ⟨hname, path, hresolve, hmissing⟩ := hselected
          refine (createFileFresh_holds h₂.safe).bind fun opened r₄ h₄ => ?_
          cases opened with
          | false =>
            obtain rfl : r₄ = r₃ := h₄
            exact hfailed _
          | true =>
            obtain ⟨other, hother, hsets, hwriting⟩ := h₄
            obtain rfl : path = other := Option.some.inj (hresolve.symm.trans hother)
            have htarget := sibling_apart hname hresolve
            exact .receiving {
              asked := { hprepared.asked with }
              active := rfl
              unfinished := hprepared.unfinished
              stored := hstored
              opened := rfl
              backup := hprepared.backup
              received := hprepared.received
              hash := by
                change t.sha256.Fed []
                rw [hprepared.hash]
                exact Sha256.fed_reset
              temporary := ⟨path, hresolve, htarget, fun _ => h₂.spared.free hmissing, hwriting⟩
              untouched := (hsets.off (Ne.symm htarget)).trans h₂.untouched
              spared := fun _ => h₂.spared.sets (h₂.spared.free hmissing) hsets }

theorem compareExisting_holds (h : f.Laid r.volume) (hprepared : f.Prepared t) :
    t.compareExisting.Holds f.contract (fun reply r' => f.Underway reply.2 [] r') r := by
  have hopen : ∀ r', f.Laid r'.volume →
      (openTemporary { t with discard := false }).Holds f.contract
        (fun reply r' => f.Underway reply.2 [] r') r' := fun r' h' =>
    openTemporary_holds h' { hprepared with asked := { hprepared.asked with } } rfl
  unfold compareExisting
  split
  · refine (probeDeveloperFile_holds (observable h.safe) rfl).bind fun probe r₁ h₁ => ?_
    obtain ⟨hsame, hprobed⟩ := h₁
    have h₁ : f.Laid r₁.volume := by
      rw [hsame.1]
      exact h
    cases probe with
    | error status => exact fail_prepared_holds h₁ hprepared
    | ok existing =>
      dsimp only
      split
      · rename_i hequal
        obtain ⟨hsize, hdigest⟩ := hequal
        rw [constantTimeDigestEqual_iff, hprepared.asked.digest] at hdigest
        rw [hprepared.asked.size] at hsize
        obtain ⟨path, content, hresolve, hcontent, hlength, hhash⟩ := hprobed existing rfl
        rw [hprepared.asked.path] at hresolve
        obtain rfl := located hresolve
        exact .discarding {
          asked := { hprepared.asked with }
          active := rfl
          unfinished := hprepared.unfinished
          discard := rfl
          closed := hprepared.closed
          temporary := hprepared.temporary
          backup := hprepared.backup
          identical := ⟨content, h.untouched.symm.trans hcontent, hlength.symm.trans hsize,
            hhash.trans (congrArg some hdigest)⟩
          untouched := h₁.untouched
          spared := fun _ => h₁.spared }
      · exact hopen r₁ h₁
  · exact hopen r h

theorem begin_holds (hidle : Idle t) (hr : r.volume = f.before) :
    (t.begin f.upload.request).Holds f.contract (fun reply r' => f.Underway reply.2 [] r') r := by
  have h : f.Laid r.volume := by
    rw [hr]
    exact laid_before f
  unfold begin
  rw [hidle.inactive, if_neg Bool.false_ne_true]
  split
  · exact .settled ⟨hidle, h.safe⟩
  · refine (stat_holds (observable h.safe) rfl).bind fun info r₁ h₁ => ?_
    obtain ⟨rfl, hstat⟩ := h₁
    have hfailed : ∀ status : DeveloperFileStatus,
        ((t.prepared f.upload.request).fail status).Holds f.contract
          (fun reply r' => f.Underway reply.2 [] r') r₁ := fun status =>
      (fail_holds (h.parked_nil rfl rfl rfl rfl)).mono fun _ _ hsettled => .settled hsettled
    cases info with
    | none => exact hfailed _
    | some info =>
      obtain ⟨path, hresolve, rfl⟩ := hstat info rfl
      obtain rfl := located hresolve
      dsimp only
      split
      · exact hfailed _
      · rename_i htype
        refine compareExisting_holds h ⟨⟨rfl, rfl, rfl, rfl, rfl, ?_, ?_⟩, rfl, hidle.closed, rfl, rfl, rfl, rfl⟩
        · intro hexisted hmissing
          rw [← h.untouched] at hmissing
          simp [hmissing, statOf] at hexisted
        · intro hexisted
          rw [← h.untouched]
          cases hnode : r₁.volume.lookup f.target with
          | missing => rfl
          | file content => simp [hnode, statOf] at hexisted
          | directory => simp [hnode, statOf] at htype

/-! ### The body -/

variable {fed data : Bytes}

theorem Receiving.safe (h : f.Receiving t fed r) : f.Safe r.volume := ⟨.same h.untouched, h.spared⟩

theorem Discarding.safe (h : f.Discarding t r) : f.Safe r.volume := ⟨.same h.untouched, h.spared⟩

theorem Receiving.parked (h : f.Receiving t fed r) : f.Parked t r.volume := by
  obtain ⟨path, hresolve, htarget, hfree, -⟩ := h.temporary
  refine ⟨h.asked.attached, h.asked.path, fun other hother => ?_, .ready h.untouched (.inl h.backup),
    h.spared⟩
  obtain rfl : path = other := Option.some.inj (hresolve.symm.trans hother)
  exact ⟨htarget, hfree⟩

theorem Discarding.parked (h : f.Discarding t r) : f.Parked t r.volume := by
  refine ⟨h.asked.attached, h.asked.path, fun other hother => ?_, .ready h.untouched (.inl h.backup),
    h.spared⟩
  rw [h.temporary, resolve_nil] at hother
  cases hother

theorem fail_underway_holds (h : f.Parked t r.volume) :
    (t.fail status).Holds f.contract (fun reply r' => f.Underway reply.2 fed r') r :=
  (fail_holds h).mono fun _ _ hsettled => .settled hsettled

theorem write_stored_holds (h : f.Receiving t fed r) :
    (UpdateFileSystem.write data).Holds f.contract (fun stored r' => f.Parked t r'.volume ∧
      (stored = true → ∃ path, f.upload.fs.resolve t.temporaryPath = some path ∧
        fold path ≠ fold f.target ∧ (f.careful → ¬ f.guarded path) ∧ Writing r' path (fed ++ data) ∧
        r'.volume.lookup f.target = f.before.lookup f.target)) r := by
  obtain ⟨path, hresolve, htarget, hfree, hwriting⟩ := h.temporary
  have hwritten : ∀ v', (v' = r.volume ∨ ∃ handle content, r.handles.write = some handle ∧
      Sets r.volume v' handle.file.path (.file content)) →
      f.Parked t v' ∧ v'.lookup f.target = f.before.lookup f.target := by
    rintro v' (rfl | ⟨handle, content, hhandle, hsets⟩)
    · exact ⟨h.parked, h.untouched⟩
    · obtain ⟨opened, hopened, -, hfile, -⟩ := hwriting.handle
      obtain rfl : handle = opened := Option.some.inj (hhandle.symm.trans hopened)
      rw [hfile] at hsets
      refine ⟨{ h.parked with
        stage := h.parked.stage.sets hresolve htarget hsets
        spared := fun hc => (h.spared hc).sets (hfree hc) hsets }, ?_⟩
      exact (hsets.off (Ne.symm htarget)).trans h.untouched
  refine ⟨fun v' hv' => ?_, fun stored r' hpost => ?_⟩
  · rcases hv' with hv' | ⟨handle, hhandle, content, hsets⟩
    · exact (hwritten v' (.inl hv')).1.safe
    · exact (hwritten v' (.inr ⟨handle, content, hhandle, hsets⟩)).1.safe
  · rcases hpost.1 with ⟨-, hvolume, -, hdone⟩ | ⟨rfl, rfl⟩
    · obtain ⟨hparked, huntouched⟩ := hwritten _ hvolume
      exact ⟨hparked, fun hstored =>
        ⟨path, hresolve, htarget, hfree, hdone hstored path fed hwriting, huntouched⟩⟩
    · exact ⟨h.parked, fun hstored => by cases hstored⟩

theorem write_holds {data : Option Bytes} (h : f.Underway t fed r) :
    (t.write data).Holds f.contract
      (fun reply r' => f.Underway reply.2 (fed ++ data.getD []) r') r := by
  unfold write
  cases h with
  | settled h =>
    rw [if_pos (.inl h.1.inactive)]
    exact .settled h
  | receiving h =>
    rw [if_neg (by simp [h.active, h.unfinished])]
    cases data with
    | none => exact fail_underway_holds h.parked
    | some data =>
      dsimp only
      split
      · exact fail_underway_holds h.parked
      · cases hupdate : t.sha256.update data with
        | none => exact fail_underway_holds h.parked
        | some sha256 =>
          rw [if_neg (by simp [h.stored])]
          refine (write_stored_holds h).bind fun stored r' h' => ?_
          obtain ⟨hparked, hdone⟩ := h'
          split
          · exact fail_underway_holds { hparked with }
          · rename_i hstored
            obtain ⟨path, hresolve, htarget, hfree, hwriting, huntouched⟩ :=
              hdone (Bool.not_eq_false _ ▸ hstored)
            exact .receiving { h with
              asked := { h.asked with }
              received := by
                rw [Option.getD_some, length_append, ← h.received]
              hash := h.hash.update hupdate
              temporary := ⟨path, hresolve, htarget, hfree, hwriting⟩
              untouched := huntouched
              spared := hparked.spared }
  | discarding h =>
    rw [if_neg (by simp [h.active, h.unfinished])]
    cases data with
    | none => exact fail_underway_holds h.parked
    | some data =>
      dsimp only
      split
      · exact fail_underway_holds h.parked
      · cases t.sha256.update data with
        | none => exact fail_underway_holds h.parked
        | some sha256 =>
          rw [if_pos h.discard]
          exact .discarding { h with asked := { h.asked with } }

/-! ### The renames -/

/-- The whole body is in the temporary file and has the promised hash. -/
structure Ready (f : Transfer) (t : DeveloperFileTransaction) (v : Volume) : Prop where
  asked : f.Asked t
  closed : t.writeFile = false
  backup : t.backupPath = []
  complete : f.upload.Complete f.whole
  temporary : ∃ path, f.upload.fs.resolve t.temporaryPath = some path ∧
    fold path ≠ fold f.target ∧ (f.careful → ¬ f.guarded path) ∧ v.lookup path = .file f.whole
  untouched : v.lookup f.target = f.before.lookup f.target
  spared : f.careful → f.Spared v

/-- The new content is in place; the old one, if there was any, is aside. -/
structure Installed (f : Transfer) (t : DeveloperFileTransaction) (backupInstalled : Bool)
    (v : Volume) : Prop where
  asked : f.Asked t
  closed : t.writeFile = false
  complete : f.upload.Complete f.whole
  placed : v.lookup f.target = .file f.whole
  spared : f.careful → f.Spared v
  old : match backupInstalled with
    | true => ∃ held, f.Aside [] t.backupPath v held
    | false => t.backupPath = [] ∧ f.before.lookup f.target = .missing

theorem Ready.safe (h : f.Ready t v) : f.Safe v := ⟨.same h.untouched, h.spared⟩

theorem Ready.parked (h : f.Ready t v) (hbackup : backup = [] ∨ f.before.lookup f.target ≠ .missing) :
    f.Parked { t with backupPath := backup } v := by
  obtain ⟨path, hresolve, htarget, hfree, -⟩ := h.temporary
  refine ⟨h.asked.attached, h.asked.path, fun other hother => ?_, .ready h.untouched hbackup,
    h.spared⟩
  obtain rfl : path = other := Option.some.inj (hresolve.symm.trans hother)
  exact ⟨htarget, hfree⟩

theorem installNew_holds (h : f.Ready t r.volume) (hmissing : f.before.lookup f.target = .missing) :
    (UpdateFileSystem.rename t.temporaryPath t.targetPath).Holds f.contract (fun installed r' =>
      if installed = true then f.Installed t false r'.volume else f.Parked t r'.volume) r := by
  obtain ⟨path, hresolve, htarget, hfree, hcontent⟩ := h.temporary
  have hparked : f.Parked t r.volume := { h.parked (.inl rfl) with
    stage := .ready h.untouched (.inl h.backup) }
  rw [h.asked.path]
  refine rename_holds (P := fun installed v =>
    if installed = true then f.Installed t false v else f.Parked t v) h.safe hparked ?_ ?_
  · intro d v hd hsets
    obtain rfl : f.target = d := located hd
    have hafter : f.Parked t v := { hparked with
      stage := .ready (hsets.at.trans hmissing.symm) (.inl h.backup)
      spared := fun hc => (h.spared hc).sets f.free_target hsets }
    exact ⟨hafter.safe, hafter⟩
  · intro s d v content installed hs hd hne hsource hmoves
    obtain rfl : f.target = d := located hd
    obtain rfl : path = s := Option.some.inj (hresolve.symm.trans hs)
    obtain rfl : content = f.whole := Node.file.inj (hsource.symm.trans hcontent)
    have hplaced : v.lookup f.target = .file f.whole := by
      rw [hmoves f.target, if_pos rfl]
    have hspared : f.careful → f.Spared v :=
      fun hc => (h.spared hc).moves (hfree hc) f.free_target hmoves
    have hafter : f.Parked t v := { hparked with
      stage := .placed h.complete hplaced
      spared := hspared }
    refine ⟨hafter.safe, ?_⟩
    cases installed with
    | false => exact hafter
    | true => exact ⟨h.asked, h.closed, h.complete, hplaced, hspared, h.backup, hmissing⟩

/-- The old target is aside and the new content still in the temporary file. -/
structure Moved (f : Transfer) (t : DeveloperFileTransaction) (backup : Bytes) (v : Volume)
    (held : Bytes) : Prop where
  aside : f.Aside t.temporaryPath backup v held
  gone : v.lookup f.target = .missing
  temporary : ∃ path, f.upload.fs.resolve t.temporaryPath = some path ∧
    fold path ≠ fold f.target ∧ (f.careful → ¬ f.guarded path) ∧ v.lookup path = .file f.whole
  spared : f.careful → f.Spared v

theorem moveAside_holds (h : f.Ready t r.volume) (hname : name ∈ siblingNames f.upload.request 98)
    (hheld : f.upload.fs.resolve name = some held) (hvacant : r.volume.lookup held = .missing)
    (hpresent : f.before.lookup f.target ≠ .missing) :
    (UpdateFileSystem.rename t.targetPath name).Holds f.contract (fun moved r' =>
      if moved = true then f.Moved t name r'.volume held
      else f.Parked { t with backupPath := name } r'.volume) r := by
  obtain ⟨path, hresolve, htarget, hfree, hcontent⟩ := h.temporary
  have hne : fold held ≠ fold f.target := sibling_apart hname hheld
  have hapart : fold path ≠ fold held := by
    intro hsame
    rw [Volume.lookup_congr hsame] at hcontent
    exact absurd (hvacant.symm.trans hcontent) (by simp)
  have hheldFree : f.careful → ¬ f.guarded held := fun hc => (h.spared hc).free hvacant
  have hready : f.Parked { t with backupPath := name } r.volume := h.parked (.inr hpresent)
  refine rename_holds (P := fun moved v => if moved = true then f.Moved t name v held
    else f.Parked { t with backupPath := name } v) h.safe hready ?_ ?_
  · intro d v hd hsets
    obtain rfl : held = d := Option.some.inj (hheld.symm.trans hd)
    have hafter : f.Parked { t with backupPath := name } v := { hready with
      stage := .ready ((hsets.off (Ne.symm hne)).trans h.untouched) (.inr hpresent)
      spared := fun hc => (h.spared hc).sets (hheldFree hc) hsets }
    exact ⟨hafter.safe, hafter⟩
  · intro s d v content moved hs hd _ hsource hmoves
    rw [h.asked.path] at hs
    obtain rfl : held = d := Option.some.inj (hheld.symm.trans hd)
    obtain rfl : f.target = s := located hs
    have hspared : f.careful → f.Spared v :=
      fun hc => (h.spared hc).moves f.free_target (hheldFree hc) hmoves
    have hafter : f.Moved t name v held := by
      refine ⟨⟨hheld, hname, hpresent, hheldFree, fun other hother => ?_, ?_⟩, ?_,
        ⟨path, hresolve, htarget, hfree, ?_⟩, hspared⟩
      · obtain rfl : path = other := Option.some.inj (hresolve.symm.trans hother)
        exact hapart
      · rw [hmoves held, if_pos rfl, ← h.untouched, hsource]
      · rw [hmoves f.target, if_neg (Ne.symm hne), if_pos rfl]
      · rw [hmoves path, if_neg hapart, if_neg htarget, hcontent]
    have hparked : f.Parked { t with backupPath := name } v := { hready with
      stage := .aside hafter.aside hafter.gone
      spared := hspared }
    refine ⟨hparked.safe, ?_⟩
    cases moved with
    | false => exact hparked
    | true => exact hafter

theorem placeNew_holds (h : f.Moved t backup r.volume held) (hpath : t.targetPath = f.upload.request.path)
    (hcomplete : f.upload.Complete f.whole) :
    (UpdateFileSystem.rename t.temporaryPath t.targetPath).Holds f.contract (fun installed r' =>
      f.Aside t.temporaryPath backup r'.volume held ∧ (f.careful → f.Spared r'.volume) ∧
        (r'.volume.lookup f.target = .file f.whole ∨
          (installed = false ∧ r'.volume.lookup f.target = .missing))) r := by
  obtain ⟨path, hresolve, htarget, hfree, hcontent⟩ := h.temporary
  have hstart : f.Safe r.volume := (Stage.aside h.aside h.gone).safe h.spared
  rw [hpath]
  refine rename_holds (P := fun installed v => f.Aside t.temporaryPath backup v held ∧
    (f.careful → f.Spared v) ∧ (v.lookup f.target = .file f.whole ∨
      (installed = false ∧ v.lookup f.target = .missing)))
    hstart ⟨h.aside, h.spared, .inr ⟨rfl, h.gone⟩⟩ ?_ ?_
  · intro d v hd hsets
    obtain rfl : f.target = d := located hd
    have hspared : f.careful → f.Spared v := fun hc => (h.spared hc).sets f.free_target hsets
    have haside : f.Aside t.temporaryPath backup v held :=
      { h.aside with kept := (hsets.off h.aside.ne_target).trans h.aside.kept }
    exact ⟨(Stage.aside haside hsets.at).safe hspared, haside, hspared, .inr ⟨rfl, hsets.at⟩⟩
  · intro s d v content installed hs hd _ hsource hmoves
    obtain rfl : f.target = d := located hd
    obtain rfl : path = s := Option.some.inj (hresolve.symm.trans hs)
    obtain rfl : content = f.whole := Node.file.inj (hsource.symm.trans hcontent)
    have hspared : f.careful → f.Spared v :=
      fun hc => (h.spared hc).moves (hfree hc) f.free_target hmoves
    have hplaced : v.lookup f.target = .file f.whole := by
      rw [hmoves f.target, if_pos rfl]
    have haside : f.Aside t.temporaryPath backup v held := by
      refine { h.aside with kept := ?_ }
      rw [hmoves held, if_neg h.aside.ne_target, if_neg (Ne.symm (h.aside.apart path hresolve))]
      exact h.aside.kept
    exact ⟨⟨.replaced hcomplete hplaced, hspared⟩, haside, hspared, .inl hplaced⟩

/-- The renames of `Finish` install the new file or leave what `Abort` can restore. -/
theorem install_holds (h : f.Ready t r.volume) :
    t.install.Holds f.contract (fun reply r' =>
      if reply.1 = true then f.Installed reply.2.2 reply.2.1 r'.volume
      else f.Parked reply.2.2 r'.volume) r := by
  unfold install
  split
  · rename_i hexisted
    refine (installNew_holds h (h.asked.missing hexisted)).bind fun installed r₁ h₁ => ?_
    exact h₁
  · rename_i hexisted
    have hpresent := h.asked.existed (Bool.not_eq_false _ ▸ hexisted)
    have hselect : (selectSiblingPath t.targetPath 98 t.requestToken t.backupPath
        developerFilePathBytes).Holds f.contract
        (fun reply r' => r' = r ∧ f.Selected 98 r.volume reply.1 reply.2) r := by
      rw [h.asked.path, h.asked.token, h.backup]
      exact selectSiblingPath_holds h.safe
    refine hselect.bind fun reply r₁ h₁ => ?_
    obtain ⟨rfl, hselected⟩ := h₁
    obtain ⟨found, name⟩ := reply
    cases found with
    | false => exact h.parked (.inr hpresent)
    | true =>
      obtain ⟨hname, held, hheld, hvacant⟩ := hselected
      refine (moveAside_holds h hname hheld hvacant hpresent).bind fun moved r₂ h₂ => ?_
      cases moved with
      | false => exact h₂
      | true =>
        refine (placeNew_holds h₂ h.asked.path h.complete).bind fun installed r₃ h₃ => ?_
        obtain ⟨haside, hspared, htarget⟩ := h₃
        have hparked : f.Parked { t with backupPath := name } r₁.volume :=
          h.parked (.inr hpresent)
        cases installed with
        | true =>
          refine ⟨{ h.asked with }, h.closed, h.complete, ?_, hspared, held, ?_⟩
          · exact htarget.resolve_right fun hfalse => Bool.noConfusion hfalse.1
          · refine { haside with apart := fun other hother => ?_ }
            rw [resolve_nil] at hother
            cases hother
        | false =>
          have hstage : f.Stage t.temporaryPath name r₃.volume := by
            rcases htarget with hplaced | ⟨-, hgone⟩
            · exact .placed h.complete hplaced
            · exact .aside haside hgone
          have hrestore := restore_holds haside (hstage.safe hspared)
          rw [← h.asked.path] at hrestore
          refine hrestore.bind fun restored r₄ h₄ => ?_
          obtain ⟨hspared₄, hback⟩ := h₄
          cases restored with
          | true =>
            have hready := hback.resolve_right fun hfalse => Bool.noConfusion hfalse.1
            exact { h.parked (.inl rfl) with
              stage := .ready hready (.inl rfl)
              spared := hspared₄ }
          | false =>
            refine { hparked with stage := ?_, spared := hspared₄ }
            rcases hback with hready | ⟨-, haside₄, hgone | hsame⟩
            · exact .ready hready (.inr hpresent)
            · exact .aside haside₄ hgone
            · rcases htarget with hplaced | ⟨-, hgone⟩
              · exact .placed h.complete (hsame.trans hplaced)
              · exact .aside haside₄ (hsame.trans hgone)

theorem write_null_holds (h : f.Underway t fed r) :
    (t.write none).Holds f.contract (fun reply r' => f.Settled reply.2 r') r := by
  unfold write
  cases h with
  | settled h =>
    rw [if_pos (.inl h.1.inactive)]
    exact h
  | receiving h | discarding h =>
    rw [if_neg (by simp [h.active, h.unfinished])]
    exact fail_holds h.parked

/-! ### The end -/

variable {backupInstalled : Bool} {calls : List TransactionCall}

theorem Installed.safe (h : f.Installed t backupInstalled v) : f.Safe v :=
  ⟨.replaced h.complete h.placed, h.spared⟩

theorem Installed.parked (h : f.Installed t backupInstalled v)
    (htemporary : t.temporaryPath = []) : f.Parked t v := by
  refine ⟨h.asked.attached, h.asked.path, fun other hother => ?_, .placed h.complete h.placed, h.spared⟩
  rw [htemporary, resolve_nil] at hother
  cases hother

theorem rollBack_holds (h : f.Installed t backupInstalled r.volume) (htemporary : t.temporaryPath = []) :
    (rollBack backupInstalled t).Holds f.contract
      (fun t' r' => f.Parked t' r'.volume) r := by
  have hparked := h.parked htemporary
  unfold rollBack
  refine (removeFile_holds h.safe).bind fun removed r₁ h₁ => ?_
  cases removed with
  | false =>
    have hsame : r₁.volume = r.volume := h₁
    rw [Bool.and_false]
    change f.Parked t r₁.volume
    rw [hsame]
    exact hparked
  | true =>
    obtain ⟨path, hpath, hsets⟩ := h₁
    rw [h.asked.path] at hpath
    obtain rfl := located hpath
    have hspared : f.careful → f.Spared r₁.volume := fun hc => (h.spared hc).sets f.free_target hsets
    cases backupInstalled with
    | false =>
      obtain ⟨hbackup, hmissing⟩ := h.old
      exact { hparked with
        stage := .ready (hsets.at.trans hmissing.symm) (.inl hbackup)
        spared := hspared }
    | true =>
      obtain ⟨held, haside⟩ := h.old
      have haside₁ : f.Aside [] t.backupPath r₁.volume held :=
        { haside with kept := (hsets.off haside.ne_target).trans haside.kept }
      have hrestore := restore_holds haside₁ ((Stage.aside haside₁ hsets.at).safe hspared)
      rw [← h.asked.path] at hrestore
      refine hrestore.bind fun restored r₂ h₂ => ?_
      obtain ⟨hspared₂, hback⟩ := h₂
      cases restored with
      | true =>
        have hready := hback.resolve_right fun hfalse => Bool.noConfusion hfalse.1
        exact { hparked with stage := .ready hready (.inl rfl), spared := hspared₂ }
      | false =>
        change f.Parked t r₂.volume
        refine { hparked with stage := ?_, spared := hspared₂ }
        rw [htemporary]
        rcases hback with hready | ⟨-, haside₂, hgone | hsame⟩
        · exact .ready hready (.inr haside.present)
        · exact .aside haside₂ hgone
        · exact .aside haside₂ (hsame.trans hsets.at)

theorem syncContainingDirectory_holds (hsafe : f.Safe r.volume) :
    (UpdateFileSystem.syncContainingDirectory name).Holds f.contract (fun _ r' => r' = r) r := by
  refine ((observable hsafe).holds (fun _ hv => hv.resolve_right id) rfl).mono
    fun answer r' hafter => ?_
  rcases hafter with hafter | ⟨-, hsame⟩
  · exact hafter.1
  · exact hsame

theorem settle_holds {installed : Bool}
    (h : if installed = true then f.Installed t backupInstalled r.volume else f.Parked t r.volume) :
    (t.settle installed backupInstalled).Holds f.contract
      (fun reply r' => f.Settled reply.2 r') r := by
  unfold settle
  cases installed with
  | false => exact fail_holds h
  | true =>
    have h : f.Installed { t with temporaryPath := [] } backupInstalled r.volume :=
      ⟨{ h.asked with }, h.closed, h.complete, h.placed, h.spared, h.old⟩
    refine (syncContainingDirectory_holds h.safe).bind fun synced r₁ hr₁ => ?_
    rw [hr₁]
    split
    · refine (rollBack_holds h rfl).bind fun t' r₂ h₂ => ?_
      exact fail_holds h₂
    · have hended : ∀ r' : FsState, f.Safe r'.volume → f.Settled
          { ({ t with temporaryPath := [] } : DeveloperFileTransaction).completed true with
            backupPath := [] } r' := fun r' hsafe => ⟨⟨rfl, h.closed, rfl⟩, hsafe⟩
      cases backupInstalled with
      | false => exact hended r h.safe
      | true =>
        obtain ⟨held, haside⟩ := h.old
        refine (removeFile_holds h.safe).bind fun removed r₂ h₂ => ?_
        cases removed with
        | false =>
          refine hended r₂ ?_
          rw [show r₂.volume = r.volume from h₂]
          exact h.safe
        | true =>
          obtain ⟨path, hpath, hsets⟩ := h₂
          obtain rfl : held = path := Option.some.inj (haside.located.symm.trans hpath)
          refine hended r₂ ⟨.replaced h.complete ?_, fun hc => (h.spared hc).sets (haside.free hc) hsets⟩
          exact (hsets.off (Ne.symm haside.ne_target)).trans h.placed

theorem commit_holds (h : f.Receiving t f.whole r) (hcomplete : f.upload.Complete f.whole) :
    t.commit.Holds f.contract (fun reply r' => f.Settled reply.2 r') r := by
  unfold commit
  rw [if_pos h.opened]
  refine ((observable h.safe).holds (fun _ hv => hv.resolve_right id) rfl).bind fun synced r₁ h₁ => ?_
  have hr₁ : r₁ = r := by
    rcases h₁ with h₁ | ⟨-, h₁⟩
    · exact h₁
    · exact h₁
  rw [hr₁]
  split
  · exact fail_holds h.parked
  · refine (closeWrite_holds h.safe).bind fun closed r₂ hvolume => ?_
    obtain ⟨path, hresolve, htarget, hfree, hwriting⟩ := h.temporary
    have hready : f.Ready { t with writeFile := false } r₂.volume := by
      rw [hvolume]
      exact ⟨{ h.asked with }, rfl, h.backup, hcomplete,
        ⟨path, hresolve, htarget, hfree, hwriting.stored⟩, h.untouched, h.spared⟩
    split
    · exact fail_holds { hready.parked (.inl rfl) with stage := .ready hready.untouched (.inl h.backup) }
    · refine (install_holds hready).bind fun reply r₃ h₃ => ?_
      exact settle_holds h₃

theorem finish_holds (h : f.Underway t f.whole r) :
    t.finish.Holds f.contract (fun reply r' => f.Settled reply.2 r') r := by
  unfold finish
  cases h with
  | settled h =>
    rw [if_pos (.inl h.1.inactive)]
    exact h
  | receiving h =>
    rw [if_neg (by simp [h.active, h.unfinished])]
    split
    · exact fail_holds h.parked
    · rename_i hlength
      cases hfinal : t.sha256.final with
      | none => exact fail_holds h.parked
      | some actual =>
        dsimp only
        split
        · exact fail_holds { h.parked with }
        · rename_i hdigest
          rw [if_neg (by simp [h.stored])]
          rw [Bool.not_eq_false, constantTimeDigestEqual_iff] at hdigest
          refine commit_holds { h with asked := { h.asked with } } ⟨?_, ?_⟩
          · rw [← h.received, not_not.1 hlength, h.asked.size]
          · rw [h.hash.final hfinal, hdigest, h.asked.digest]
  | discarding h =>
    rw [if_neg (by simp [h.active, h.unfinished])]
    split
    · exact fail_holds h.parked
    · cases t.sha256.final with
      | none => exact fail_holds h.parked
      | some actual =>
        dsimp only
        split
        · exact fail_holds { h.parked with }
        · rw [if_pos h.discard]
          exact ⟨⟨rfl, h.closed, rfl⟩, h.safe⟩

/-! ### Whole uploads -/

theorem abort_underway_holds (h : f.Underway t fed r) :
    t.abort.Holds f.contract (fun t' r' => f.Settled t' r') r := by
  cases h with
  | settled h =>
    unfold abort restoreTarget
    simp only [h.1.closed, h.1.detached, Bool.false_eq_true, if_false, Bool.false_and]
    exact ⟨idle_released t, h.2⟩
  | receiving h | discarding h => exact abort_holds h.parked

theorem applyAll_settled_holds (h : f.Settled t r) :
    (TransactionCall.applyAll calls t).Holds f.contract (fun t' r' => f.Settled t' r') r := by
  induction calls generalizing t r with
  | nil => exact h
  | cons call rest ih =>
    have hcall : (call.apply t).Holds f.contract (fun t' r' => f.Settled t' r') r := by
      cases call with
      | write data =>
        change (t.write data >>= _).Holds _ _ _
        unfold write
        rw [if_pos (.inl h.1.inactive)]
        exact h
      | finish =>
        change (t.finish >>= _).Holds _ _ _
        unfold finish
        rw [if_pos (.inl h.1.inactive)]
        exact h
      | abort =>
        have hunderway : f.Underway t [] r := .settled h
        exact abort_underway_holds hunderway
    exact hcall.bind fun t' r' h' => ih h'

theorem Underway.safe (h : f.Underway t fed r) : f.Safe r.volume := by
  cases h with
  | settled h => exact h.2
  | receiving h => exact h.safe
  | discarding h => exact h.safe

/-- Whatever is called of a transaction that has received `fed`, the card stays safe. -/
theorem applyAll_holds (h : f.Underway t fed r) (hwhole : f.whole = fed ++ TransactionCall.body calls) :
    (TransactionCall.applyAll calls t).Holds f.contract (fun _ r' => f.Safe r'.volume) r := by
  induction calls generalizing t fed r with
  | nil => exact h.safe
  | cons call rest ih =>
    have hended : ∀ {t' r'}, f.Settled t' r' → (TransactionCall.applyAll rest t').Holds f.contract
        (fun _ r' => f.Safe r'.volume) r' := fun h' =>
      (applyAll_settled_holds h').mono fun _ _ hsettled => hsettled.2
    unfold TransactionCall.applyAll
    cases call with
    | write data =>
      change ((t.write data >>= fun reply => pure reply.2) >>= _).Holds _ _ _
      rw [bind_assoc]
      cases data with
      | none => exact (write_null_holds h).bind fun reply r' h' => hended h'
      | some data =>
        refine (write_holds h).bind fun reply r' h' => ih h' ?_
        rw [hwhole, Option.getD_some, append_assoc]
        rfl
    | finish =>
      change ((t.finish >>= fun reply => pure reply.2) >>= _).Holds _ _ _
      rw [bind_assoc]
      have hfed : f.Underway t f.whole r := by
        rw [hwhole]
        change f.Underway t (fed ++ []) r
        rw [append_nil]
        exact h
      exact (finish_holds hfed).bind fun reply r' h' => hended h'
    | abort => exact (abort_underway_holds h).bind fun t' r' h' => hended h'

end Transfer

end Bmx.Remote
