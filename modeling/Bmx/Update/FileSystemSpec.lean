import Bmx.Update.FileSystem

/-!
# What the adapter's operations do to the card

One statement for each operation of `UpdateFileSystem`: the states of the volume it passes through,
and the volume and handles it leaves for every answer, under every pattern of FatFs failures. The
destinations of failed `f_rename` calls are kept in `lost`: `Rename` has unlinked an old target by
then.
-/

namespace Bmx.Update

open Interaction FatFs Program List Option

/-! ### Locations -/

def FatFsUpdateFileSystem.Locates (fs : FatFsUpdateFileSystem) (path key : Bytes) : Prop :=
  ∃ absolute, fs.resolve path = some absolute ∧ fold key = fold absolute

section Locations

variable {fs : FatFsUpdateFileSystem}

variable {path absolute left right key : Bytes}

theorem resolve_eq_some (h : fs.resolve path = some absolute) :
    ∃ root, fs.volumeRoot = some root ∧ absolute = root ++ path := by
  unfold FatFsUpdateFileSystem.resolve at h
  obtain ⟨root, hroot, h⟩ := bind_eq_some_iff.1 h
  split at h
  · exact ⟨root, hroot, (some.inj h).symm⟩
  · cases h

/-- The file system tells two paths apart exactly when they differ by more than case. -/
theorem fold_resolve {l r : Bytes} (hleft : fs.resolve left = some l)
    (hright : fs.resolve right = some r) : fold l = fold r ↔ fold left = fold right := by
  obtain ⟨root, hroot, rfl⟩ := resolve_eq_some hleft
  obtain ⟨root', hroot', rfl⟩ := resolve_eq_some hright
  obtain rfl : root = root' := some.inj (hroot.symm.trans hroot')
  rw [fold_append, fold_append, append_cancel_left_eq]

theorem locates_iff (h : fs.resolve path = some absolute) : fs.Locates path key ↔ fold key = fold absolute := by
  constructor
  · rintro ⟨other, hother, hkey⟩
    obtain rfl : absolute = other := some.inj (h.symm.trans hother)
    exact hkey
  · intro hkey
    exact ⟨absolute, h, hkey⟩

theorem Locates.apart (hleft : fs.Locates left key) (hne : fold left ≠ fold right) : ¬ fs.Locates right key := by
  rintro ⟨r, hr, hkey⟩
  obtain ⟨l, hl, hkey'⟩ := hleft
  exact hne ((fold_resolve hl hr).1 (hkey'.symm.trans hkey))

end Locations

/-! ### Outcomes -/

/-- Remember the destination of every `f_rename` that failed. -/
def noteRename (lost : List Bytes) (event : Event signature) : List Bytes :=
  match event with
  | ⟨.rename _ destination, answer⟩ => if answer.1 = .ok then lost else lost ++ [destination]
  | _ => lost

/-- FatFs with every pattern of failures, called only where `inv` holds of the volume. -/
def cardContract (inv : Volume → Prop) : Contract signature (Volume × List Bytes) :=
  (FatFs.env.observed noteRename).under fun s => inv s.1

def statOf : FatFs.Node → UpdateFileStat
  | .missing => ⟨.missing, 0⟩
  | .file content => ⟨.regularFile, content.length⟩
  | .directory => ⟨.directory, 0⟩

structure FsState where
  volume : Volume
  handles : Handles
  lost : List Bytes

/-- The write handle is open on the file at the absolute path, which holds `content`, all of it
written and hashed through the handle. -/
structure Writing (r : FsState) (absolute content : Bytes) : Prop where
  handle : ∃ handle, r.handles.write = some handle ∧ handle.absolutePath = absolute ∧
    handle.file.path = absolute ∧ handle.file.fptr = content.length ∧
    handle.file.objsize = content.length ∧ handle.written = content.length ∧
    handle.sha256.Fed content
  stored : r.volume.lookup absolute = .file content

/-- A read handle is open on the file at the absolute path with this content. -/
structure Reading (r : FsState) (id : ReadId) (absolute content : Bytes) : Prop where
  handle : ∃ handle, r.handles.read id = some handle ∧ handle.file.path = absolute ∧
    handle.file.objsize = content.length ∧ handle.size = content.length
  stored : r.volume.lookup absolute = .file content

/-- The volumes in which an operation makes its FatFs calls. -/
def Midway (fs : FatFsUpdateFileSystem) (op : FileSystemOp) (r : FsState) (v : Volume) : Prop :=
  v = r.volume ∨
    match op with
    | .write _ => ∃ handle, r.handles.write = some handle ∧
        ∃ content, Sets r.volume v handle.file.path (.file content)
    | .createDirectory path => ∃ absolute, fs.resolve path = some absolute ∧
        r.volume.lookup absolute = .missing ∧ Sets r.volume v absolute .directory
    | .rename source destination _ => ∃ s d, fs.resolve source = some s ∧
        fs.resolve destination = some d ∧ fold s ≠ fold d ∧ r.volume.lookup d ≠ .directory ∧
        (Sets r.volume v d .missing ∨
          ∃ content, r.volume.lookup s = .file content ∧ Moves r.volume v s d content)
    | _ => False

/-- The outcomes of `Rename`: nothing happened, the target is gone because the rename after its
removal failed, or the source took the target's place. -/
inductive Renamed (r r' : FsState) (s d : Bytes) : Bool → Prop
  | untouched (hvolume : r'.volume = r.volume) (hlost : r'.lost = r.lost) : Renamed r r' s d false
  | lost (htarget : r.volume.lookup d ≠ .directory) (hvolume : Sets r.volume r'.volume d .missing)
      (hlost : r'.lost = r.lost ++ [d]) : Renamed r r' s d false
  | moved (answer : Bool) (content : Bytes) (hsource : r.volume.lookup s = .file content)
      (htarget : r.volume.lookup d ≠ .directory) (hvolume : Moves r.volume r'.volume s d content)
      (hlost : r'.lost = r.lost) : Renamed r r' s d answer

/-- What every operation leaves behind. -/
def After (fs : FatFsUpdateFileSystem) (op : FileSystemOp) (r : FsState) (answer : op.Answer)
    (r' : FsState) : Prop :=
  match op, answer with
  | .stat path, answer => r' = r ∧ ∀ info, answer = some info →
      ∃ absolute, fs.resolve path = some absolute ∧ info = statOf (r.volume.lookup absolute)
  | .openRead path, answer => r'.volume = r.volume ∧ r'.lost = r.lost ∧
      r'.handles.write = r.handles.write ∧ ∀ id, answer = some id →
        ∃ absolute content, fs.resolve path = some absolute ∧ Reading r' id absolute content
  | .getSize id, answer => r' = r ∧ ∀ absolute content, Reading r id absolute content →
      ∀ size, answer = some size → size = content.length
  | .readAt id offset count, answer => r'.volume = r.volume ∧ r'.lost = r.lost ∧
      r'.handles.write = r.handles.write ∧ ∀ absolute content, Reading r id absolute content →
        Reading r' id absolute content ∧
          ∀ bytes, answer = some bytes → bytes = (content.drop offset).take count ∧ bytes.length = count
  | .closeRead _, _ => r'.volume = r.volume ∧ r'.lost = r.lost ∧ r'.handles.write = r.handles.write
  | .createFileFresh path, true => r'.lost = r.lost ∧ ∃ absolute, fs.resolve path = some absolute ∧
      Sets r.volume r'.volume absolute (.file []) ∧ Writing r' absolute []
  | .createFileFresh _, false => r' = r
  | .write bytes, answer => r'.lost = r.lost ∧
      (r'.volume = r.volume ∨ ∃ handle content, r.handles.write = some handle ∧
        Sets r.volume r'.volume handle.file.path (.file content)) ∧
      (∀ handle, r.handles.write = some handle →
        ∃ handle', r'.handles.write = some handle' ∧ handle'.file.path = handle.file.path) ∧
      (answer = true → ∀ absolute content, Writing r absolute content →
        Writing r' absolute (content ++ bytes))
  | .sync, _ => r' = r
  | .closeWrite, _ => r'.volume = r.volume ∧ r'.lost = r.lost ∧ r'.handles.write = none
  | .createDirectory path, _ => r'.lost = r.lost ∧ r'.handles = r.handles ∧
      (r'.volume = r.volume ∨ ∃ absolute, fs.resolve path = some absolute ∧
        r.volume.lookup absolute = .missing ∧ Sets r.volume r'.volume absolute .directory)
  | .removeFile path, answer => r'.lost = r.lost ∧ r'.handles = r.handles ∧
      (answer = false → r'.volume = r.volume) ∧
      (answer = true → ∃ absolute, fs.resolve path = some absolute ∧
        r.volume.lookup absolute ≠ .directory ∧ Sets r.volume r'.volume absolute .missing)
  | .rename source destination _, answer => r'.handles = r.handles ∧
      ((r' = r ∧ answer = false) ∨ ∃ s d, fs.resolve source = some s ∧
        fs.resolve destination = some d ∧ fold s ≠ fold d ∧ Renamed r r' s d answer)
  | .syncContainingDirectory path, answer => r' = r ∧ answer = (fs.resolve path).isSome
  | .getFreeSpace, _ => r' = r
  | .getVolumeSize, _ => r' = r

/-- The adapter seen from the installer, on a card with every pattern of failures: an operation
may be called where `inv` holds of all the volumes it passes through. -/
def fileSystemContract (fs : FatFsUpdateFileSystem) (inv : Volume → Prop) :
    Contract fileSystemSignature FsState where
  pre op r := ∀ v, Midway fs op r v → inv v
  post op r answer r' := After fs op r answer r'

/-! ### FatFs calls -/

section Calls

variable {inv : Volume → Prop} {s : Volume × List Bytes}

theorem holds_readsOnly (op : Op) (hop : op.readsOnly = true) (hinv : inv s.1) :
    (perform (S := signature) op).Holds (cardContract inv)
      (fun answer s' => s' = s ∧ Exchange op s.1 answer s.1) s := by
  refine ⟨hinv, fun answer s' hpost => ?_⟩
  obtain ⟨hexchange, hlost⟩ := hpost
  have hvolume : s'.1 = s.1 := hexchange.readsOnly hop
  have hkeep : s'.2 = s.2 := by
    rw [hlost]
    cases op <;> first | rfl | cases hop
  refine ⟨Prod.ext hvolume hkeep, ?_⟩
  rw [hvolume] at hexchange
  exact hexchange

theorem holds_changes (op : Op) (hop : ∀ source destination, op ≠ .rename source destination) (hinv : inv s.1) :
    (perform (S := signature) op).Holds (cardContract inv)
      (fun answer s' => s'.2 = s.2 ∧ Exchange op s.1 answer s'.1) s := by
  refine ⟨hinv, fun answer s' hpost => ⟨?_, hpost.1⟩⟩
  rw [hpost.2]
  cases op <;> first | rfl | exact absurd rfl (hop _ _)

variable {file : Fil} {count : Nat} {path : Bytes}

theorem fRead_holds (hinv : inv s.1) :
    (fRead file count).Holds (cardContract inv)
      (fun answer s' => s' = s ∧ Exchange (.read file count) s.1 answer s.1) s :=
  holds_readsOnly _ rfl hinv

theorem fOpenExisting_holds (hinv : inv s.1) :
    (fOpenExisting path).Holds (cardContract inv)
      (fun answer s' => s' = s ∧ Exchange (.openExisting path) s.1 answer s.1) s :=
  holds_readsOnly _ rfl hinv

theorem fLseek_holds {offset : Nat} (hinv : inv s.1) :
    (fLseek file offset).Holds (cardContract inv)
      (fun answer s' => s' = s ∧ Exchange (.lseek file offset) s.1 answer s.1) s :=
  holds_readsOnly _ rfl hinv

theorem fRename_holds {source destination : Bytes} (hinv : inv s.1) :
    (fRename source destination).Holds (cardContract inv)
      (fun answer s' => Exchange (.rename source destination) s.1 answer s'.1 ∧
        s'.2 = if answer.1 = .ok then s.2 else s.2 ++ [destination]) s :=
  ⟨hinv, fun _ _ hpost => ⟨hpost.1, hpost.2⟩⟩

theorem statAbsolute_holds (hinv : inv s.1) :
    (statAbsolute path).Holds (cardContract inv)
      (fun info s' => s' = s ∧ ∀ stat, info = some stat → stat = statOf (s.1.lookup path)) s := by
  refine (holds_readsOnly (.stat path) rfl hinv).bind fun answer s' hanswer => ?_
  obtain ⟨rfl, hexchange⟩ := hanswer
  obtain ⟨status, info⟩ := answer
  rcases hexchange.stat with hstat | hfault
  · rw [hstat]
    unfold Volume.stat
    cases hnode : s'.1.lookup path with
    | missing =>
      have hmissing : isMissing (s'.1.absent path) = true := by
        unfold Volume.absent
        split <;> rfl
      simp [hmissing, statOf]
    | file content | directory => simp [isMissing, statOf]
  · have hne : status ≠ .ok := FResult.ne_ok_of_isFault hfault
    have hpresent : isMissing status = false := by
      cases status <;> first | rfl | cases hfault
    simp [hpresent, hne]

/-- The question leaves the volume as it is. -/
def ReadsOnly (op : signature.Op) : Prop := Op.readsOnly op = true

theorem quiet_holds {α : Type} {p : Program signature α} (hp : p.Asks ReadsOnly)
    (hinv : inv s.1) : p.Holds (cardContract inv) (fun _ s' => s' = s) s := by
  refine Program.Asks.holds hp (fun op s' _ hs' => ?_)
    (fun op s' answer s'' hop hs' hpost => ?_) rfl
  · rw [hs']
    exact hinv
  · subst hs'
    exact ((holds_readsOnly op hop hinv).2 answer s'' hpost).1

theorem fStat_asks : (fStat path).Asks ReadsOnly := asks_perform rfl

theorem fRead_asks : (fRead file count).Asks ReadsOnly :=
  asks_perform rfl

theorem fClose_asks : (fClose file).Asks ReadsOnly := asks_perform rfl

theorem fSync_asks : (fSync file).Asks ReadsOnly := asks_perform rfl

theorem fOpenExisting_asks : (fOpenExisting path).Asks ReadsOnly :=
  asks_perform rfl

theorem statAbsolute_asks : (statAbsolute path).Asks ReadsOnly := by
  refine fStat_asks.bind fun answer => ?_
  dsimp only
  split_ifs <;> exact trivial

theorem readExactChunks_asks (fuel : Nat) (file : Fil) (size : Nat) :
    (readExactChunks fuel file size).Asks ReadsOnly := by
  induction fuel generalizing file size with
  | zero => exact trivial
  | succ fuel ih =>
    unfold readExactChunks
    split
    · exact trivial
    · refine fRead_asks.bind fun answer => ?_
      dsimp only
      split
      · exact trivial
      · exact (ih _ _).bind fun _ => trivial

/-- A read that fills its range returns the bytes of the file from the read pointer on. -/
theorem readExactChunks_holds (fuel : Nat) (file : Fil) (size : Nat) (hinv : inv s.1) :
    (readExactChunks fuel file size).Holds (cardContract inv)
      (fun received s' => s' = s ∧ ∀ bytes after, received = some (bytes, after) →
        after = { file with fptr := file.fptr + size } ∧ bytes.length = size ∧
        ∀ content, s.1.lookup file.path = .file content →
          bytes = (content.drop file.fptr).take size) s := by
  induction fuel generalizing file size with
  | zero =>
    unfold readExactChunks
    refine ⟨rfl, fun bytes after hsome => ?_⟩
    split at hsome
    · rename_i hzero
      cases hsome
      subst hzero
      exact ⟨rfl, rfl, fun content _ => take_zero.symm⟩
    · cases hsome
  | succ fuel ih =>
    unfold readExactChunks
    split
    · rename_i hzero
      refine ⟨rfl, fun bytes after hsome => ?_⟩
      cases hsome
      subst hzero
      exact ⟨rfl, rfl, fun content _ => take_zero.symm⟩
    · refine (fRead_holds hinv).bind fun answer s' hanswer => ?_
      obtain ⟨hs', hexchange⟩ := hanswer
      rw [hs']
      dsimp only
      split
      · exact ⟨rfl, fun _ _ hnone => by cases hnone⟩
      · rename_i hfilled
        simp only [not_or, ne_eq, not_not] at hfilled
        refine (ih _ _).bind fun rest s'' hrest => ?_
        obtain ⟨hs'', hrest⟩ := hrest
        refine ⟨hs'', fun bytes after hsome => ?_⟩
        cases rest with
        | none => cases hsome
        | some rest =>
          obtain ⟨hafter, htail, hcontent⟩ := hrest rest.1 rest.2 rfl
          simp only [map_some, some.injEq, Prod.mk.injEq] at hsome
          obtain ⟨hbytes, hlast⟩ := hsome
          have hle : min size uintMax ≤ size := Nat.min_le_left _ _
          rw [← hbytes, ← hlast]
          refine ⟨?_, ?_, fun content hnode => ?_⟩
          · rw [hafter]
            simp only [Nat.add_assoc, Nat.add_sub_cancel' hle]
          · rw [length_append, hfilled.2, htail, Nat.add_sub_cancel' hle]
          · obtain ⟨stored, hstored, hread⟩ := hexchange.read hfilled.1
            obtain rfl : stored = content := by
              rw [hnode] at hstored
              exact (Node.file.inj hstored).symm
            rw [hcontent stored hnode, hread]
            conv_rhs => rw [← Nat.add_sub_cancel' hle, take_add, drop_drop]

end Calls

/-! ### The operations -/

/-- The layer's answer, with the card it leaves, is an outcome of the operation. -/
def Leaves (fs : FatFsUpdateFileSystem) (op : FileSystemOp) (r : FsState)
    (reply : op.Answer × Handles) (s : Volume × List Bytes) : Prop :=
  After fs op r reply.1 ⟨s.1, reply.2, s.2⟩

namespace FatFsUpdateFileSystem

variable {fs : FatFsUpdateFileSystem} {inv : Volume → Prop} {v : Volume} {handles : Handles}
  {lost : List Bytes}

variable {path : Bytes} {id : ReadId}

theorem stat_holds (hinv : inv v) :
    (fs.stat path).Holds (cardContract inv) (fun answer s' => s' = (v, lost) ∧
      ∀ info, answer = some info → ∃ absolute, fs.resolve path = some absolute ∧
        info = statOf (v.lookup absolute)) (v, lost) := by
  unfold stat
  split
  · exact ⟨rfl, fun _ h => by cases h⟩
  · rename_i absolute hresolve
    refine (statAbsolute_holds hinv).mono fun info s' hinfo => ⟨hinfo.1, fun stat hstat => ?_⟩
    exact ⟨absolute, hresolve, hinfo.2 stat hstat⟩

theorem openHandle_holds {absolute : Bytes} {size : Nat} (hinv : inv v) :
    (openHandle absolute size).Holds (cardContract inv) (fun handle s' => s' = (v, lost) ∧
      ∀ opened, handle = some opened → ∃ content, v.lookup absolute = .file content ∧
        opened.file.path = absolute ∧ opened.file.objsize = content.length ∧
        opened.size = content.length) (v, lost) := by
  unfold openHandle
  refine (fOpenExisting_holds hinv).bind fun answer s' hanswer => ?_
  obtain ⟨hs', hexchange⟩ := hanswer
  obtain ⟨status, file⟩ := answer
  rw [hs']
  dsimp only
  split
  · exact ⟨rfl, fun _ h => by cases h⟩
  · rename_i hok
    split
    · refine (quiet_holds fClose_asks hinv).bind fun _ s'' hs'' => ?_
      exact ⟨hs'', fun _ h => by cases h⟩
    · rename_i hsize
      obtain ⟨content, hcontent, hfile⟩ := hexchange.openExisting (not_not.1 hok)
      refine ⟨rfl, fun opened hopened => ⟨content, hcontent, ?_⟩⟩
      cases hopened
      subst hfile
      exact ⟨rfl, rfl, (not_not.1 hsize).symm⟩

theorem openRead_holds (hinv : inv v) :
    (fs.openRead path handles).Holds (cardContract inv)
      (Leaves fs (.openRead path) ⟨v, handles, lost⟩) (v, lost) := by
  have hnone : ∀ s : Volume × List Bytes, s = (v, lost) →
      Leaves fs (.openRead path) ⟨v, handles, lost⟩ (none, handles) s := by
    rintro s rfl
    exact ⟨rfl, rfl, rfl, fun _ h => by cases h⟩
  unfold openRead
  split
  · exact hnone _ rfl
  · rename_i absolute hresolve
    refine (statAbsolute_holds hinv).bind fun info s' hinfo => ?_
    obtain ⟨hs', -⟩ := hinfo
    rw [hs']
    split
    · split
      · exact hnone _ rfl
      · rename_i id hid
        refine (openHandle_holds hinv).bind fun handle s'' hhandle => ?_
        obtain ⟨hs'', hopened⟩ := hhandle
        cases handle with
        | none => exact hnone _ hs''
        | some handle =>
          obtain ⟨content, hcontent, hpath, hobjsize, hsize⟩ := hopened handle rfl
          rw [hs'']
          refine ⟨rfl, rfl, rfl, fun answered hanswered => ?_⟩
          cases hanswered
          exact ⟨absolute, content, hresolve, ⟨handle, Function.update_self _ _ _, hpath, hobjsize, hsize⟩, hcontent⟩
    · exact hnone _ rfl

theorem getSize_holds : Leaves fs (.getSize id) ⟨v, handles, lost⟩ (getSize handles id, handles) (v, lost) := by
  refine ⟨rfl, fun absolute content hreading size hsize => ?_⟩
  obtain ⟨handle, hhandle, -, hobjsize, hlength⟩ := hreading.handle
  change handles.read id = some handle at hhandle
  change getSize handles id = some size at hsize
  simp only [getSize, hhandle] at hsize
  split at hsize
  · rw [← some.inj hsize, hlength]
  · cases hsize

theorem readAt_holds {offset count : Nat} (hinv : inv v) :
    (fs.readAt handles id offset count).Holds (cardContract inv)
      (Leaves fs (.readAt id offset count) ⟨v, handles, lost⟩) (v, lost) := by
  unfold readAt
  cases hread : handles.read id with
  | none =>
    refine ⟨rfl, rfl, rfl, fun absolute content hreading => ?_⟩
    obtain ⟨handle, hhandle, -⟩ := hreading.handle
    exact absurd (hread.symm.trans hhandle) (by simp)
  | some handle =>
    -- a handle that only moved its read pointer still reads the same file
    have hmoved : ∀ (file : Fil) (answer : Option Bytes), file.path = handle.file.path →
        file.objsize = handle.file.objsize →
        (∀ bytes, answer = some bytes → ∀ content, v.lookup handle.file.path = .file content →
          bytes = (content.drop offset).take count ∧ bytes.length = count) →
        Leaves fs (.readAt id offset count) ⟨v, handles, lost⟩
          (answer, handles.setRead id (some { handle with file := file })) (v, lost) := by
      intro file answer hpath hobjsize hanswer
      refine ⟨rfl, rfl, rfl, fun absolute content hreading => ⟨?_, fun bytes hbytes => ?_⟩⟩
      · obtain ⟨opened, hopened, hfile, hlength, hsize⟩ := hreading.handle
        obtain rfl : handle = opened := some.inj (hread.symm.trans hopened)
        exact ⟨⟨_, Function.update_self _ _ _, hpath.trans hfile, hobjsize.trans hlength, hsize⟩, hreading.stored⟩
      · obtain ⟨opened, hopened, hfile, -, -⟩ := hreading.handle
        obtain rfl : handle = opened := some.inj (hread.symm.trans hopened)
        exact hanswer bytes hbytes content (by rw [hfile]; exact hreading.stored)
    have hsame : Leaves fs (.readAt id offset count) ⟨v, handles, lost⟩ (none, handles) (v, lost) :=
      ⟨rfl, rfl, rfl, fun _ _ hreading => ⟨⟨hreading.handle, hreading.stored⟩, fun _ h => by cases h⟩⟩
    dsimp only
    split
    · exact hsame
    · refine (fLseek_holds hinv).bind fun answer s' hanswer => ?_
      obtain ⟨hs', hexchange⟩ := hanswer
      obtain ⟨status, fptr⟩ := answer
      rw [hs']
      split
      · exact hsame
      · split
        · exact hmoved _ _ rfl rfl fun _ h => by cases h
        · rename_i hfptr
          refine (readExactChunks_holds _ _ _ hinv).bind fun received s'' hreceived => ?_
          obtain ⟨hs'', hreceived⟩ := hreceived
          rw [hs'']
          cases received with
          | none => exact hmoved _ _ rfl rfl fun _ h => by cases h
          | some received =>
            obtain ⟨bytes, file⟩ := received
            obtain ⟨hfile, hlength, hcontent⟩ := hreceived bytes file rfl
            refine hmoved file (some bytes) (by rw [hfile]) (by rw [hfile]) fun answered hsome content hnode => ?_
            cases hsome
            have hbytes := hcontent content hnode
            rw [← not_not.1 hfptr]
            exact ⟨hbytes, hlength⟩

theorem closeRead_holds (hinv : inv v) :
    (closeRead handles id).Holds (cardContract inv)
      (Leaves fs (.closeRead id) ⟨v, handles, lost⟩) (v, lost) := by
  unfold closeRead
  split
  · exact ⟨rfl, rfl, rfl⟩
  · refine (quiet_holds fClose_asks hinv).bind fun answer s' hs' => ?_
    rw [hs']
    exact ⟨rfl, rfl, rfl⟩

theorem closeWrite_holds (hinv : inv v) :
    (closeWrite handles).Holds (cardContract inv)
      (Leaves fs .closeWrite ⟨v, handles, lost⟩) (v, lost) := by
  unfold closeWrite
  split
  · rename_i hnone
    exact ⟨rfl, rfl, hnone⟩
  · refine (quiet_holds fClose_asks hinv).bind fun answer s' hs' => ?_
    rw [hs']
    exact ⟨rfl, rfl, rfl⟩

theorem createFileFresh_holds (hinv : inv v) :
    (fs.createFileFresh path handles).Holds (cardContract inv)
      (Leaves fs (.createFileFresh path) ⟨v, handles, lost⟩) (v, lost) := by
  unfold createFileFresh
  split
  · exact rfl
  · rename_i absolute hresolve
    split
    · exact rfl
    · refine (statAbsolute_holds hinv).bind fun info s' hinfo => ?_
      obtain ⟨hs', hstat⟩ := hinfo
      rw [hs']
      split
      · exact rfl
      · refine (holds_changes (.openNew absolute) (by simp) hinv).bind fun answer s'' hpost => ?_
        obtain ⟨hlost, hexchange⟩ := hpost
        rcases hexchange.openNew with ⟨hstatus, hvolume⟩ | ⟨hanswer, hmissing, hsets⟩
        · dsimp only at hstatus ⊢
          rw [if_pos hstatus, Prod.ext hvolume hlost]
          exact rfl
        · cases hanswer
          refine ⟨hlost, absolute, hresolve, hsets, ⟨_, rfl, rfl, rfl, rfl, rfl, rfl, rfl⟩, ?_⟩
          exact hsets.at

/-- The chunks of one `Write` append to the file under the handle, as far as the card takes them. -/
theorem writeChunks_holds (fuel : Nat) (handle : WriteHandle) (bytes : Bytes) (v₀ : Volume)
    (hstart : v = v₀ ∨ ∃ content, Sets v₀ v handle.file.path (.file content))
    (hinv : ∀ v', (v' = v₀ ∨ ∃ content, Sets v₀ v' handle.file.path (.file content)) → inv v') :
    (writeChunks fuel handle bytes).Holds (cardContract inv)
      (fun reply s' => s'.2 = lost ∧ reply.2.file.path = handle.file.path ∧
        reply.2.absolutePath = handle.absolutePath ∧
        (s'.1 = v₀ ∨ ∃ content, Sets v₀ s'.1 handle.file.path (.file content)) ∧
        (reply.1 = true →
          (∀ message, handle.sha256.Fed message → reply.2.sha256.Fed (message ++ bytes)) ∧
            ∀ content, v.lookup handle.file.path = .file content → handle.file.fptr = content.length →
              handle.file.objsize = content.length → handle.written = content.length →
              s'.1.lookup handle.file.path = .file (content ++ bytes) ∧
              reply.2.file.fptr = (content ++ bytes).length ∧
              reply.2.file.objsize = (content ++ bytes).length ∧
              reply.2.written = (content ++ bytes).length)) (v, lost) := by
  induction fuel generalizing handle bytes v with
  | zero =>
    refine ⟨rfl, rfl, rfl, hstart, fun hempty => ?_⟩
    obtain rfl : bytes = [] := List.isEmpty_iff.1 hempty
    simp only [append_nil]
    exact ⟨fun _ hfed => hfed, fun _ hnode hptr hsize hwritten => ⟨hnode, hptr, hsize, hwritten⟩⟩
  | succ fuel ih =>
    unfold writeChunks
    split
    · rename_i hempty
      refine ⟨rfl, rfl, rfl, hstart, fun _ => ?_⟩
      obtain rfl : bytes = [] := List.isEmpty_iff.1 hempty
      simp only [append_nil]
      exact ⟨fun _ hfed => hfed, fun _ hnode hptr hsize hwritten => ⟨hnode, hptr, hsize, hwritten⟩⟩
    · generalize hchunk : bytes.take (min bytes.length uintMax) = chunk
      refine (holds_changes (.write handle.file chunk) (by simp) (hinv v hstart)).bind
        fun answer s' hpost => ?_
      obtain ⟨hlost, hexchange⟩ := hpost
      obtain ⟨status, written⟩ := answer
      obtain ⟨v', lost'⟩ := s'
      obtain rfl : lost' = lost := hlost
      have hcard : v' = v₀ ∨ ∃ content, Sets v₀ v' handle.file.path (.file content) := by
        rcases hexchange.write with ⟨-, hvolume⟩ | ⟨-, -, content, -, hsets⟩
        · rw [show v' = v from hvolume]
          exact hstart
        · refine .inr ⟨_, hsets.after fun other hother => ?_⟩
          rcases hstart with rfl | ⟨_, hstart⟩
          · rfl
          · exact hstart.off hother
      dsimp only
      split
      · exact ⟨rfl, rfl, rfl, hcard, fun h => by cases h⟩
      · rename_i hok
        split
        · exact ⟨rfl, rfl, rfl, hcard, fun h => by cases h⟩
        · rename_i hall
          split
          · exact ⟨rfl, rfl, rfl, hcard, fun h => by cases h⟩
          · rename_i sha256 hupdate
            refine (ih (handle.wrote (handle.file.advanced written) sha256 chunk.length)
              (bytes.drop chunk.length) hcard hinv).mono fun reply s'' hreply => ?_
            obtain ⟨hlost, hpath, habsolute, hcard', hdone⟩ := hreply
            have hjoin (written : Bytes) : written ++ chunk ++ bytes.drop chunk.length = written ++ bytes := by
              rw [append_assoc, ← hchunk, length_take, Nat.min_eq_left (Nat.min_le_left _ _), take_append_drop]
            refine ⟨hlost, hpath, habsolute, hcard', fun htrue => ⟨fun message hfed => ?_,
              fun content hnode hptr hsize hwritten => ?_⟩⟩
            · rw [← hjoin]
              exact (hdone htrue).1 (message ++ chunk) (hfed.update hupdate)
            -- the chunk went to the end of the file, so the rest continues from there
            rcases hexchange.write with ⟨hstatus, -⟩ | ⟨-, -, stored, hstored, hsets⟩
            · exact absurd (not_not.1 hok) hstatus
            · obtain rfl : stored = content := Node.file.inj (hstored.symm.trans hnode)
              have hwrote : written = chunk.length := not_not.1 hall
              have hnow : v'.lookup handle.file.path = .file (stored ++ chunk) := by
                rw [hsets.at, hptr, take_length]
                rw [hwrote, take_length, drop_eq_nil_of_le (Nat.le_add_right _ _), append_nil]
              have hend : handle.file.fptr + written = (stored ++ chunk).length := by
                rw [length_append, hptr, hwrote]
              rw [← hjoin]
              refine (hdone htrue).2 (stored ++ chunk) hnow hend ?_ ?_
              · change max handle.file.objsize (handle.file.fptr + written) = _
                omega
              · change handle.written + chunk.length = _
                rw [length_append, hwritten]

theorem write_holds {bytes : Bytes} (hinv : ∀ v', Midway fs (.write bytes) ⟨v, handles, lost⟩ v' → inv v') :
    (fs.write bytes handles).Holds (cardContract inv)
      (Leaves fs (.write bytes) ⟨v, handles, lost⟩) (v, lost) := by
  unfold write
  cases hhandle : handles.write with
  | none =>
    refine ⟨rfl, .inl rfl, fun handle h => ?_, fun h => by cases h⟩
    exact absurd (hhandle.symm.trans h) (by simp)
  | some handle =>
    dsimp only
    split
    · exact ⟨rfl, .inl rfl, fun handle h => ⟨handle, h, rfl⟩, fun h => by cases h⟩
    · have hcards : ∀ v', (v' = v ∨ ∃ content, Sets v v' handle.file.path (.file content)) →
          inv v' := by
        rintro v' (h | ⟨content, h⟩)
        · exact hinv v' (.inl h)
        · exact hinv v' (.inr ⟨handle, hhandle, content, h⟩)
      refine (writeChunks_holds bytes.length handle bytes v (.inl rfl) hcards).bind
        fun reply s' hreply => ?_
      obtain ⟨stored, after⟩ := reply
      obtain ⟨hlost, hpath, habsolute, hcard, hdone⟩ := hreply
      refine ⟨hlost, ?_, fun opened hopened => ?_, fun htrue absolute content hwriting => ?_⟩
      · rcases hcard with h | ⟨content, h⟩
        · exact .inl h
        · exact .inr ⟨handle, content, hhandle, h⟩
      · obtain rfl : handle = opened := some.inj (hhandle.symm.trans hopened)
        exact ⟨after, rfl, hpath⟩
      · obtain ⟨opened, hopened, habs, hfile, hptr, hsize, hwritten, hfed⟩ := hwriting.handle
        obtain rfl : handle = opened := some.inj (hhandle.symm.trans hopened)
        have hstored : stored = true := by
          change (stored && _) = true at htrue
          exact (Bool.and_eq_true _ _ ▸ htrue).1
        have hnode : v.lookup handle.file.path = .file content := by
          rw [hfile]
          exact hwriting.stored
        obtain ⟨hnow, hptr', hsize', hwritten'⟩ := (hdone hstored).2 content hnode hptr hsize hwritten
        rw [hfile] at hnow
        exact ⟨⟨after, rfl, habsolute.trans habs, hpath.trans hfile, hptr', hsize', hwritten',
          (hdone hstored).1 content hfed⟩, hnow⟩

theorem verifyChunks_asks (fuel : Nat) (file : Fil) (hash : Sha256) (remaining : Nat) :
    (verifyChunks fuel file hash remaining).Asks ReadsOnly := by
  induction fuel generalizing file hash remaining with
  | zero => exact trivial
  | succ fuel ih =>
    unfold verifyChunks
    split
    · exact trivial
    · refine (readExactChunks_asks _ _ _).bind fun received => ?_
      split
      · exact trivial
      · split
        · exact trivial
        · exact ih _ _ _

theorem verifyEnd_asks (file : Fil) (hash : Option Sha256) : (verifyEnd file hash).Asks ReadsOnly := by
  unfold verifyEnd
  split
  · exact fClose_asks.bind fun _ => trivial
  · exact fRead_asks.bind fun _ => fClose_asks.bind fun _ => trivial

theorem verifySyncedWrite_asks (handle : WriteHandle) : (verifySyncedWrite handle).Asks ReadsOnly := by
  unfold verifySyncedWrite
  refine fSync_asks.bind fun (status, _) => ?_
  dsimp only
  split
  · exact trivial
  split
  · exact trivial
  refine statAbsolute_asks.bind fun before => ?_
  split
  · exact trivial
  refine fOpenExisting_asks.bind fun (status, file) => ?_
  split
  · exact trivial
  refine Program.Asks.bind ?_ fun result => (verifyEnd_asks _ _).bind fun actual => ?_
  · split
    · exact trivial
    · exact verifyChunks_asks _ _ _ _
  split
  · exact trivial
  split
  · exact trivial
  exact statAbsolute_asks.bind fun _ => trivial

theorem sync_holds (hinv : inv v) :
    (fs.sync handles).Holds (cardContract inv) (fun _ s' => s' = (v, lost)) (v, lost) := by
  unfold sync
  split
  · exact rfl
  · split
    · exact rfl
    · exact quiet_holds (verifySyncedWrite_asks _) hinv

theorem createDirectory_holds (hinv : ∀ v', Midway fs (.createDirectory path) ⟨v, handles, lost⟩ v' → inv v') :
    (fs.createDirectory path).Holds (cardContract inv)
      (fun answer => Leaves fs (.createDirectory path) ⟨v, handles, lost⟩ (answer, handles))
      (v, lost) := by
  have hstart : inv v := hinv v (.inl rfl)
  have hsame : ∀ answer, Leaves fs (.createDirectory path) ⟨v, handles, lost⟩ (answer, handles)
      (v, lost) := fun answer => ⟨rfl, rfl, .inl rfl⟩
  unfold createDirectory
  split
  · exact hsame _
  · rename_i absolute hresolve
    refine (statAbsolute_holds hstart).bind fun info s' hinfo => ?_
    obtain ⟨hs', hstat⟩ := hinfo
    rw [hs']
    cases info with
    | none => exact hsame _
    | some info =>
      dsimp only
      split
      · exact hsame _
      · refine (holds_changes (.mkdir absolute) (by simp) hstart).bind fun answer s'' hpost => ?_
        obtain ⟨hlost, hexchange⟩ := hpost
        obtain ⟨status, _⟩ := answer
        obtain ⟨v', lost'⟩ := s''
        obtain rfl : lost' = lost := hlost
        have hcard : v' = v ∨ ∃ absolute, fs.resolve path = some absolute ∧
            v.lookup absolute = .missing ∧ Sets v v' absolute .directory := by
          rcases hexchange.mkdir with ⟨-, hvolume⟩ | ⟨-, hmissing, hsets⟩
          · exact .inl hvolume
          · exact .inr ⟨absolute, hresolve, hmissing, hsets⟩
        have hleaves : ∀ answer, Leaves fs (.createDirectory path) ⟨v, handles, lost'⟩
            (answer, handles) (v', lost') := fun answer => ⟨rfl, rfl, hcard⟩
        split
        · exact hleaves _
        · have hnow : inv v' := hinv v' hcard
          refine (statAbsolute_holds hnow).bind fun after s''' hafter => ?_
          rw [hafter.1]
          exact hleaves _

theorem removeFile_holds (hinv : inv v) :
    (fs.removeFile path).Holds (cardContract inv)
      (fun answer => Leaves fs (.removeFile path) ⟨v, handles, lost⟩ (answer, handles))
      (v, lost) := by
  have hsame : Leaves fs (.removeFile path) ⟨v, handles, lost⟩ (false, handles) (v, lost) :=
    ⟨rfl, rfl, fun _ => rfl, fun h => by cases h⟩
  unfold removeFile
  split
  · exact hsame
  · rename_i absolute hresolve
    have habsent : v.lookup absolute = .missing →
        Leaves fs (.removeFile path) ⟨v, handles, lost⟩ (true, handles) (v, lost) :=
      fun hmissing => ⟨rfl, rfl, fun _ => rfl,
        fun _ => ⟨absolute, hresolve, by simp [hmissing], sets_same hmissing⟩⟩
    refine (statAbsolute_holds hinv).bind fun info s' hinfo => ?_
    obtain ⟨hs', hstat⟩ := hinfo
    rw [hs']
    cases info with
    | none => exact hsame
    | some info =>
      have hinfo := hstat info rfl
      dsimp only
      split
      · rename_i htype
        refine habsent ?_
        rw [hinfo] at htype
        cases hnode : v.lookup absolute <;> rw [hnode] at htype <;> first | rfl | cases htype
      · split
        · exact hsame
        · refine (holds_changes (.unlink absolute) (by simp) hinv).bind
            fun answer s'' hpost => ?_
          obtain ⟨hlost, hexchange⟩ := hpost
          obtain ⟨status, _⟩ := answer
          obtain ⟨v', lost'⟩ := s''
          obtain rfl : lost' = lost := hlost
          rcases hexchange.unlink with ⟨hstatus, hvolume, hmissing⟩ | ⟨hstatus, hfile, hsets⟩
          · rw [show v' = v from hvolume]
            cases hanswer : status == .ok || isMissing status with
            | false => exact hsame
            | true =>
              refine habsent (hmissing ?_)
              simpa [isMissing, show status ≠ .ok from hstatus] using hanswer
          · obtain ⟨content, hcontent⟩ := hfile
            rw [show status = .ok from hstatus]
            refine ⟨rfl, rfl, fun h => by simp at h, fun _ => ⟨absolute, hresolve, ?_, hsets⟩⟩
            rw [show v.lookup absolute = _ from hcontent]
            simp

private theorem makeRoom_holds {d : Bytes} {info : UpdateFileStat} (hinv : inv v)
    (hinfo : info = statOf (v.lookup d)) :
    (if info.type = .missing then pure true
      else fUnlink d >>= fun (status, _) => pure (status == .ok) : Program signature Bool).Holds
      (cardContract inv) (fun free s' => s'.2 = lost ∧ (free = false → s'.1 = v) ∧
        (free = true → Sets v s'.1 d .missing)) (v, lost) := by
  split
  · rename_i htype
    refine ⟨rfl, (fun h => by cases h), fun _ => sets_same ?_⟩
    rw [hinfo] at htype
    cases hnode : v.lookup d <;> rw [hnode] at htype <;> first | rfl | cases htype
  · refine (holds_changes (.unlink d) (by simp) hinv).bind fun answer s' hpost => ?_
    obtain ⟨hlost, hexchange⟩ := hpost
    obtain ⟨status, _⟩ := answer
    rcases hexchange.unlink with ⟨hstatus, hvolume, -⟩ | ⟨hstatus, -, hsets⟩
    · refine ⟨hlost, fun _ => hvolume, fun h => ?_⟩
      exact absurd (beq_iff_eq.1 h) hstatus
    · refine ⟨hlost, fun h => ?_, fun _ => hsets⟩
      rw [show status = .ok from hstatus] at h
      simp at h

theorem rename_holds {source destination : Bytes} {replaceExisting : Bool}
    (hinv : ∀ v', Midway fs (.rename source destination replaceExisting) ⟨v, handles, lost⟩ v' →
      inv v') :
    (fs.rename source destination replaceExisting).Holds (cardContract inv)
      (fun answer => Leaves fs (.rename source destination replaceExisting) ⟨v, handles, lost⟩
        (answer, handles)) (v, lost) := by
  have hstart : inv v := hinv v (.inl rfl)
  have hsame : Leaves fs (.rename source destination replaceExisting) ⟨v, handles, lost⟩
      (false, handles) (v, lost) := ⟨rfl, .inl ⟨rfl, rfl⟩⟩
  unfold rename
  split
  · rename_i s d hs hd
    split
    · exact hsame
    · rename_i hdifferent
      rw [foldEqual_iff] at hdifferent
      refine (statAbsolute_holds hstart).bind fun sourceStat s₁ hsource => ?_
      obtain ⟨hs₁, hsource⟩ := hsource
      rw [hs₁]
      cases sourceStat with
      | none => exact hsame
      | some sourceStat =>
        refine (statAbsolute_holds hstart).bind fun destinationStat s₂ hdestination => ?_
        obtain ⟨hs₂, hdestination⟩ := hdestination
        rw [hs₂]
        cases destinationStat with
        | none => exact hsame
        | some destinationStat =>
          have hdestination := hdestination destinationStat rfl
          dsimp only
          split
          · exact hsame
          split
          · exact hsame
          rename_i htypes hreplace
          simp only [not_or, not_and, not_not] at htypes
          have hd' : v.lookup d ≠ .directory := by
            intro hnode
            rw [show v.lookup d = _ from hnode] at hdestination
            exact htypes.2.1 (by rw [hdestination]; rfl)
          refine (makeRoom_holds hstart hdestination).bind fun free s₃ hfree => ?_
          obtain ⟨hlost, hkept, hgone⟩ := hfree
          obtain ⟨v₃, lost₃⟩ := s₃
          obtain rfl : lost₃ = lost := hlost
          cases free with
          | false =>
            rw [show v₃ = v from hkept rfl]
            exact hsame
          | true =>
            replace hgone : Sets v v₃ d .missing := hgone rfl
            have hroom : inv v₃ := hinv v₃ (.inr ⟨s, d, hs, hd, hdifferent, hd', .inl hgone⟩)
            refine (fRename_holds hroom).bind fun answer s₄ hpost => ?_
            obtain ⟨hexchange, hlost⟩ := hpost
            obtain ⟨status, _⟩ := answer
            obtain ⟨v₄, lost₄⟩ := s₄
            rcases hexchange.rename with ⟨hstatus, hvolume⟩ | ⟨hstatus, -, content, hcontent, hmoves⟩
            · -- the old target is gone and nothing took its place
              obtain rfl : v₄ = v₃ := hvolume
              rw [if_neg hstatus] at hlost
              rw [if_pos hstatus]
              exact ⟨rfl, .inr ⟨s, d, hs, hd, hdifferent, .lost hd' hgone hlost⟩⟩
            · obtain rfl : status = .ok := hstatus
              obtain rfl : lost₄ = lost₃ := hlost
              have hsource : v.lookup s = .file content := (hgone.off hdifferent).symm.trans hcontent
              have hmoves : Moves v v₄ s d content := by
                intro other
                rw [hmoves other]
                split
                · rfl
                · split
                  · rfl
                  · exact hgone.off ‹_›
              have hmoved : inv v₄ :=
                hinv v₄ (.inr ⟨s, d, hs, hd, hdifferent, hd', .inr ⟨content, hsource, hmoves⟩⟩)
              have hleaves : ∀ answer, Leaves fs (.rename source destination replaceExisting)
                  ⟨v, handles, lost₄⟩ (answer, handles) (v₄, lost₄) := fun answer =>
                ⟨rfl, .inr ⟨s, d, hs, hd, hdifferent, .moved answer content hsource hd' hmoves rfl⟩⟩
              refine (statAbsolute_holds hmoved).bind fun sourceAfter s₅ hsourceAfter => ?_
              rw [hsourceAfter.1]
              cases sourceAfter with
              | none => exact hleaves _
              | some sourceAfter =>
                refine (statAbsolute_holds hmoved).bind fun destinationAfter s₆ hafter => ?_
                rw [hafter.1]
                exact hleaves _
  · exact hsame

theorem queryVolumeGeometry_asks (root : Bytes) : (queryVolumeGeometry root).Asks ReadsOnly := by
  refine Program.Asks.bind (p := fGetfree root) (asks_perform rfl) fun (status, _) => ?_
  dsimp only
  split <;> exact trivial

theorem getFreeSpace_holds (hinv : inv v) :
    fs.getFreeSpace.Holds (cardContract inv) (fun _ s' => s' = (v, lost)) (v, lost) := by
  unfold getFreeSpace
  split
  · exact rfl
  · exact quiet_holds ((queryVolumeGeometry_asks _).bind fun _ => trivial) hinv

theorem getVolumeSize_holds (hinv : inv v) :
    fs.getVolumeSize.Holds (cardContract inv) (fun _ s' => s' = (v, lost)) (v, lost) := by
  unfold getVolumeSize
  split
  · exact rfl
  · exact quiet_holds ((queryVolumeGeometry_asks _).bind fun _ => trivial) hinv

/-- The adapter meets its contract: an operation called where `inv` holds of every volume it
passes through leaves one of its outcomes. -/
theorem layer_holds (op : FileSystemOp) (hinv : ∀ v', Midway fs op ⟨v, handles, lost⟩ v' → inv v') :
    (fs.layer op handles).Holds (cardContract inv) (Leaves fs op ⟨v, handles, lost⟩) (v, lost) := by
  have hstart : inv v := hinv v (.inl rfl)
  cases op with
  | stat path =>
    refine (stat_holds hstart).bind fun answer s' hanswer => ?_
    rw [hanswer.1]
    exact ⟨rfl, hanswer.2⟩
  | openRead path => exact openRead_holds hstart
  | getSize id => exact getSize_holds
  | readAt id offset count => exact readAt_holds hstart
  | closeRead id => exact closeRead_holds hstart
  | createFileFresh path => exact createFileFresh_holds hstart
  | write bytes => exact write_holds hinv
  | sync =>
    refine (sync_holds hstart).bind fun answer s' hs' => ?_
    rw [hs']
    exact rfl
  | closeWrite => exact closeWrite_holds hstart
  | createDirectory path =>
    exact (createDirectory_holds hinv).bind fun answer s' hleaves => hleaves
  | removeFile path => exact (removeFile_holds hstart).bind fun answer s' hleaves => hleaves
  | rename source destination replaceExisting =>
    exact (rename_holds hinv).bind fun answer s' hleaves => hleaves
  | syncContainingDirectory path => exact ⟨rfl, rfl⟩
  | getFreeSpace =>
    refine (getFreeSpace_holds hstart).bind fun answer s' hs' => ?_
    rw [hs']
    exact rfl
  | getVolumeSize =>
    refine (getVolumeSize_holds hstart).bind fun answer s' hs' => ?_
    rw [hs']
    exact rfl

end FatFsUpdateFileSystem

/-! ### Cards to evaluate on -/

/-- A call that fails without effect. -/
def deviceError : (op : FatFs.Op) → FResult × op.Extra
  | .stat _ => (.diskErr, ⟨false, 0⟩)
  | .openExisting path | .openNew path => (.diskErr, ⟨path, 0, 0⟩)
  | .lseek _ _ | .write _ _ => (.diskErr, 0)
  | .read _ _ => (.diskErr, [])
  | .getfree _ => (.diskErr, ⟨0, 0, 0, 0, 0, 0⟩)
  | .sync _ | .close _ | .unlink _ | .rename _ _ | .mkdir _ => (.diskErr, ())

/-- A card with these files in its root. -/
def cardOf : List (Bytes × Bytes) → Volume
  | [] => ⟨fun _ => .missing, fun _ h => absurd rfl h⟩
  | (path, content) :: rest =>
    (((cardOf rest).openNew (ascii "SYS:/" ++ path)).2.write ⟨ascii "SYS:/" ++ path, 0, 0⟩ content).2

end Bmx.Update
