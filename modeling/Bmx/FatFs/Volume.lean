import Bmx.Base.Bytes
import Bmx.Interaction.Contract

/-!
# A FAT volume and the FatFs primitives

FatFs itself is not part of the repository, so its calls are the interface of the model. A volume
maps folded absolute paths to nodes. Each primitive has its documented effect on a volume, and a
primitive may instead fail with a device error and no effect, or write fewer bytes than asked. Read
attributes, short file names and cluster sizes are not modelled.
-/

namespace Bmx.FatFs

open Interaction Function

inductive FResult
  | ok | diskErr | intErr | notReady | noFile | noPath | invalidName | denied | exist
  | invalidObject | writeProtected | invalidDrive | notEnabled | noFilesystem | mkfsAborted
  | timeout | locked | notEnoughCore | tooManyOpenFiles | invalidParameter
  deriving DecidableEq

/-- Results that report trouble with the device or the table of open objects, never the state of
the directory tree. -/
def FResult.isFault : FResult → Bool
  | .ok | .noFile | .noPath | .exist => false
  | _ => true

inductive Node
  | missing
  | file (content : Bytes)
  | directory
  deriving DecidableEq

/-- Everything before the last separator; the volume designator for a path in the root. -/
def parent (path : Bytes) : Bytes := (path.reverse.dropWhile (· != slash)).tail.reverse

def isDirectoryIn (node : Bytes → Node) (key : Bytes) : Prop :=
  slash ∉ key ∨ node key = .directory

instance (node : Bytes → Node) (key : Bytes) : Decidable (isDirectoryIn node key) :=
  inferInstanceAs (Decidable (_ ∨ _))

/-- A directory tree under folded absolute paths. A path without a separator names the root. -/
structure Volume where
  node : Bytes → Node
  parents : ∀ key, node key ≠ .missing → isDirectoryIn node (parent key)

namespace Volume

def lookup (v : Volume) (path : Bytes) : Node := v.node (fold path)

/-- The containing directory of the path exists. -/
def HasParent (v : Volume) (path : Bytes) : Prop := isDirectoryIn v.node (parent (fold path))

instance (v : Volume) (path : Bytes) : Decidable (v.HasParent path) :=
  inferInstanceAs (Decidable (isDirectoryIn _ _))

variable {v : Volume} {node : Node} {path other : Bytes}

private theorem put_parents {key : Bytes} (hparent : node = .missing ∨ isDirectoryIn v.node (parent key))
    (hleaf : v.node key ≠ .directory ∨ node = .directory) (other : Bytes)
    (hother : Function.update v.node key node other ≠ .missing) :
    isDirectoryIn (Function.update v.node key node) (parent other) := by
  have hbefore : isDirectoryIn v.node (parent other) := by
    by_cases heq : other = key
    · subst heq
      rw [update_self] at hother
      exact hparent.resolve_left hother
    · rw [update_of_ne heq] at hother
      exact v.parents other hother
  rcases hbefore with hroot | hdirectory
  · exact .inl hroot
  · by_cases heq : parent other = key
    · rw [heq] at hdirectory ⊢
      refine .inr ?_
      rw [update_self]
      exact hleaf.resolve_left fun h => h hdirectory
    · refine .inr ?_
      rw [update_of_ne heq]
      exact hdirectory

/-- Replace one node by another that keeps the tree a tree. -/
def put (v : Volume) (path : Bytes) (node : Node)
    (hparent : node = .missing ∨ v.HasParent path)
    (hleaf : v.lookup path ≠ .directory ∨ node = .directory) : Volume :=
  ⟨Function.update v.node (fold path) node, put_parents hparent hleaf⟩

@[simp] theorem lookup_put_same {hparent hleaf}
    (hsame : fold other = fold path) : (v.put path node hparent hleaf).lookup other = node := by
  simp only [lookup, put, hsame, update_self]

@[simp] theorem lookup_put_other {hparent hleaf}
    (hother : fold other ≠ fold path) : (v.put path node hparent hleaf).lookup other = v.lookup other := by
  simp only [lookup, put, update_of_ne hother]

theorem hasParent_of_present (hpresent : v.lookup path ≠ .missing) :
    v.HasParent path := v.parents _ hpresent

end Volume

/-! ### Primitives -/

/-- The open file object: its path, read or write pointer and size. -/
structure Fil where
  path : Bytes
  fptr : Nat
  objsize : Nat
  deriving DecidableEq

/-- The object after bytes went through it at its pointer. -/
def Fil.advanced (file : Fil) (written : Nat) : Fil :=
  ⟨file.path, file.fptr + written, max file.objsize (file.fptr + written)⟩

structure FilInfo where
  isDirectory : Bool
  fsize : Nat

/-- What `f_getfree` reports, with the fields of the mounted file system object. -/
structure Geometry where
  freeClusters : Nat
  csize : Nat
  ssize : Nat
  nFatent : Nat
  database : Nat
  volbase : Nat

inductive Op
  | stat (path : Bytes)
  | openExisting (path : Bytes)
  | openNew (path : Bytes)
  | lseek (file : Fil) (offset : Nat)
  | read (file : Fil) (count : Nat)
  | write (file : Fil) (bytes : Bytes)
  | sync (file : Fil)
  | close (file : Fil)
  | unlink (path : Bytes)
  | rename (source destination : Bytes)
  | mkdir (path : Bytes)
  | getfree (root : Bytes)

/-- Every answer starts with the result code; the rest is meaningful when it is `ok`. -/
@[reducible] def Op.Extra : Op → Type
  | .stat _ => FilInfo
  | .openExisting _ | .openNew _ => Fil
  | .lseek _ _ => Nat
  | .read _ _ => Bytes
  | .write _ _ => Nat
  | .getfree _ => Geometry
  | .sync _ | .close _ | .unlink _ | .rename _ _ | .mkdir _ => Unit

@[reducible] def signature : Signature := ⟨Op, fun op => FResult × op.Extra⟩

namespace Volume

/-- The result of looking for a path that is not there. -/
def absent (v : Volume) (path : Bytes) : FResult := if v.HasParent path then .noFile else .noPath

def stat (v : Volume) (path : Bytes) : FResult × FilInfo :=
  match v.lookup path with
  | .missing => (v.absent path, ⟨false, 0⟩)
  | .file content => (.ok, ⟨false, content.length⟩)
  | .directory => (.ok, ⟨true, 0⟩)

def openExisting (v : Volume) (path : Bytes) : FResult × Fil :=
  match v.lookup path with
  | .missing => (v.absent path, ⟨path, 0, 0⟩)
  | .file content => (.ok, ⟨path, 0, content.length⟩)
  | .directory => (.noFile, ⟨path, 0, 0⟩)

/-- `f_open` with `FA_CREATE_NEW`. -/
def openNew (v : Volume) (path : Bytes) : (FResult × Fil) × Volume :=
  if hmissing : v.lookup path = .missing then
    if hparent : v.HasParent path then
      ((.ok, ⟨path, 0, 0⟩), v.put path (.file []) (.inr hparent) (.inl (by simp [hmissing])))
    else ((.noPath, ⟨path, 0, 0⟩), v)
  else ((if v.lookup path = .directory then .denied else .exist, ⟨path, 0, 0⟩), v)

/-- A read pointer never moves past the end of the file. -/
def lseek (file : Fil) (offset : Nat) : FResult × Nat := (.ok, min offset file.objsize)

def read (v : Volume) (file : Fil) (count : Nat) : FResult × Bytes :=
  match v.lookup file.path with
  | .file content => (.ok, (content.drop file.fptr).take count)
  | _ => (.intErr, [])

def write (v : Volume) (file : Fil) (bytes : Bytes) : (FResult × Nat) × Volume :=
  match hnode : v.lookup file.path with
  | .file content =>
    ((.ok, bytes.length), v.put file.path
      (.file (content.take file.fptr ++ bytes ++ content.drop (file.fptr + bytes.length)))
      (.inr (hasParent_of_present (by simp [hnode]))) (.inl (by simp [hnode])))
  | _ => ((.intErr, 0), v)

/-- The updater unlinks regular files only; FatFs refuses a directory that is not empty. -/
def unlink (v : Volume) (path : Bytes) : FResult × Volume :=
  match hnode : v.lookup path with
  | .missing => (v.absent path, v)
  | .file _ => (.ok, v.put path .missing (.inl rfl) (.inl (by simp [hnode])))
  | .directory => (.denied, v)

private theorem rename_parent {v : Volume} {source destination content : Bytes}
    (hsource : v.lookup source = .file content) (hparent : v.HasParent destination) :
    (v.put source .missing (.inl rfl) (.inl (by simp [hsource]))).HasParent destination := by
  rcases hparent with hroot | hdirectory
  · exact .inl hroot
  · refine .inr ?_
    have hne : parent (fold destination) ≠ fold source := by
      intro heq
      rw [heq] at hdirectory
      exact absurd (hsource.symm.trans hdirectory) (by simp)
    exact (update_of_ne hne _ _).trans hdirectory

/-- `f_rename` of a regular file; no function of the updater renames a directory. -/
def rename (v : Volume) (source destination : Bytes) : FResult × Volume :=
  match hsource : v.lookup source with
  | .missing => (v.absent source, v)
  | .directory => (.denied, v)
  | .file content =>
    if hmissing : v.lookup destination = .missing then
      if hparent : v.HasParent destination then
        (.ok, (v.put source .missing (.inl rfl) (.inl (by simp [hsource]))).put destination
          (.file content) (.inr (rename_parent hsource hparent)) (.inl (by
            by_cases hsame : fold destination = fold source
            · simp [hsame]
            · simp [hsame, hmissing])))
      else (.noPath, v)
    else (.exist, v)

def mkdir (v : Volume) (path : Bytes) : FResult × Volume :=
  if v.lookup path = .missing then
    if hparent : v.HasParent path then (.ok, v.put path .directory (.inr hparent) (.inr rfl))
    else (.noPath, v)
  else (.exist, v)

/-- The documented effect of a primitive on a working device with the given geometry. -/
def perform (geometry : Geometry) : (op : Op) → Volume → (FResult × op.Extra) × Volume
  | .stat path, v => (v.stat path, v)
  | .openExisting path, v => (v.openExisting path, v)
  | .openNew path, v => v.openNew path
  | .lseek file offset, v => (Volume.lseek file offset, v)
  | .read file count, v => (v.read file count, v)
  | .write file bytes, v => v.write file bytes
  | .sync _, v => ((.ok, ()), v)
  | .close _, v => ((.ok, ()), v)
  | .unlink path, v => (((v.unlink path).1, ()), (v.unlink path).2)
  | .rename source destination, v =>
    (((v.rename source destination).1, ()), (v.rename source destination).2)
  | .mkdir path, v => (((v.mkdir path).1, ()), (v.mkdir path).2)
  | .getfree _, v => ((.ok, geometry), v)

end Volume

/-- What a primitive may do: its documented effect, a device error without effect, or, for a
write, storing only a part of the bytes. -/
inductive Exchange : (op : Op) → Volume → FResult × op.Extra → Volume → Prop
  | performs (geometry : Geometry) (op : Op) (v : Volume) :
      Exchange op v (Volume.perform geometry op v).1 (Volume.perform geometry op v).2
  | fails (op : Op) (v : Volume) (answer : FResult × op.Extra) (hfault : answer.1.isFault = true) :
      Exchange op v answer v
  | short (file : Fil) (bytes : Bytes) (count : Nat) (v : Volume) (hshort : count < bytes.length)
      (hok : (v.write file (bytes.take count)).1.1 = .ok) :
      Exchange (.write file bytes) v (.ok, count) (v.write file (bytes.take count)).2

/-- The FatFs surroundings, with every pattern of failures. -/
def env : Env signature Volume := fun op v answer v' => Exchange op v answer v'

/-! ### Effects

What an exchange did to the volume, read at every path. -/

variable {path other : Bytes} {node : Node}

theorem Volume.lookup_congr {v : Volume} (hsame : fold other = fold path) : v.lookup other = v.lookup path := by
  rw [lookup, lookup, hsame]

/-- The node at the path is replaced and nothing else changes. -/
def Sets (v v' : Volume) (path : Bytes) (node : Node) : Prop :=
  ∀ other, v'.lookup other = if fold other = fold path then node else v.lookup other

/-- The file at `source` becomes the file at `destination`. -/
def Moves (v v' : Volume) (source destination : Bytes) (content : Bytes) : Prop :=
  ∀ other, v'.lookup other =
    if fold other = fold destination then .file content
    else if fold other = fold source then .missing else v.lookup other

theorem sets_put {v : Volume} (hparent : node = .missing ∨ v.HasParent path)
    (hleaf : v.lookup path ≠ .directory ∨ node = .directory) : Sets v (v.put path node hparent hleaf) path node := by
  intro other
  by_cases hsame : fold other = fold path
  · rw [if_pos hsame, Volume.lookup_put_same hsame]
  · rw [if_neg hsame, Volume.lookup_put_other hsame]

theorem sets_same {v : Volume} (hnode : v.lookup path = node) : Sets v v path node := by
  intro other
  split
  · rename_i hsame
    rw [Volume.lookup_congr hsame, hnode]
  · rfl

theorem Sets.at {v v' : Volume} (h : Sets v v' path node) : v'.lookup path = node := by
  rw [h path, if_pos rfl]

theorem Sets.off {v v' : Volume} (h : Sets v v' path node)
    (hother : fold other ≠ fold path) : v'.lookup other = v.lookup other := by
  rw [h other, if_neg hother]

theorem Sets.after {v₀ v v' : Volume} (h : Sets v v' path node)
    (hbefore : ∀ other, fold other ≠ fold path → v.lookup other = v₀.lookup other) : Sets v₀ v' path node := by
  intro other
  rw [h other]
  split
  · rfl
  · exact hbefore other ‹_›

section Kept

variable {guarded : Bytes → Prop} {v v' : Volume}

variable {other : Bytes}

/-- A change at a path that is not among the guarded ones, which FAT tells apart from it. -/
theorem Sets.keeps (hcongr : ∀ path other, fold other = fold path → guarded path → guarded other)
    {path : Bytes} {node : Node} (hsets : Sets v v' path node) (hfree : ¬ guarded path)
    (hother : guarded other) : v'.lookup other = v.lookup other :=
  hsets.off fun hsame => hfree (hcongr other path hsame.symm hother)

theorem Moves.keeps (hcongr : ∀ path other, fold other = fold path → guarded path → guarded other)
    {source destination content : Bytes} (hmoves : Moves v v' source destination content)
    (hsource : ¬ guarded source) (hdestination : ¬ guarded destination)
    (hother : guarded other) : v'.lookup other = v.lookup other := by
  have hne : ∀ path, ¬ guarded path → fold other ≠ fold path :=
    fun path hfree hsame => hfree (hcongr other path hsame.symm hother)
  rw [hmoves other, if_neg (hne _ hdestination), if_neg (hne _ hsource)]

end Kept

/-- Questions that leave the volume as it is. -/
def Op.readsOnly : Op → Bool
  | .openNew _ | .write _ _ | .unlink _ | .rename _ _ | .mkdir _ => false
  | _ => true

variable {v v' : Volume}

theorem Exchange.readsOnly {op : Op} {answer : FResult × op.Extra}
    (h : Exchange op v answer v') (hop : op.readsOnly = true) : v' = v := by
  cases h with
  | performs geometry => cases op <;> first | rfl | cases hop
  | fails => rfl
  | short => cases hop

theorem FResult.ne_ok_of_isFault {result : FResult} (h : result.isFault = true) : result ≠ .ok := by
  rintro rfl
  cases h

theorem Exchange.stat {answer : FResult × FilInfo}
    (h : Exchange (.stat path) v answer v') : answer = v.stat path ∨ answer.1.isFault = true := by
  cases h with
  | performs geometry => exact .inl rfl
  | fails _ _ _ hfault => exact .inr hfault

theorem Exchange.openExisting {answer : FResult × Fil}
    (h : Exchange (.openExisting path) v answer v') (hok : answer.1 = .ok) :
    ∃ content, v.lookup path = .file content ∧ answer.2 = ⟨path, 0, content.length⟩ := by
  cases h with
  | performs geometry =>
    change (v.openExisting path).1 = .ok at hok
    change ∃ content, _ ∧ (v.openExisting path).2 = _
    unfold Volume.openExisting at hok ⊢
    split at hok
    · unfold Volume.absent at hok
      split at hok <;> cases hok
    · rename_i content hcontent
      exact ⟨content, hcontent, rfl⟩
    · cases hok
  | fails _ _ _ hfault => exact absurd hok (FResult.ne_ok_of_isFault hfault)

variable {file : Fil} {bytes : Bytes} {answer : FResult × Unit}

theorem Exchange.read {count : Nat} {answer : FResult × Bytes}
    (h : Exchange (.read file count) v answer v') (hok : answer.1 = .ok) :
    ∃ content, v.lookup file.path = .file content ∧ answer.2 = (content.drop file.fptr).take count := by
  cases h with
  | performs geometry =>
    change (v.read file count).1 = .ok at hok
    change ∃ content, _ ∧ (v.read file count).2 = _
    unfold Volume.read at hok ⊢
    split at hok
    · rename_i content hcontent
      exact ⟨content, hcontent, rfl⟩
    · cases hok
  | fails _ _ _ hfault => exact absurd hok (FResult.ne_ok_of_isFault hfault)

theorem Exchange.openNew {answer : FResult × Fil} (h : Exchange (.openNew path) v answer v') :
    (answer.1 ≠ .ok ∧ v' = v) ∨
      (answer = (.ok, ⟨path, 0, 0⟩) ∧ v.lookup path = .missing ∧ Sets v v' path (.file [])) := by
  cases h with
  | performs geometry =>
    change ((v.openNew path).1.1 ≠ .ok ∧ (v.openNew path).2 = v) ∨
      ((v.openNew path).1 = _ ∧ _ ∧ Sets v (v.openNew path).2 path _)
    unfold Volume.openNew
    split
    · rename_i hmissing
      split
      · rename_i hparent
        exact .inr ⟨rfl, hmissing, sets_put (.inr hparent) (.inl (by simp [hmissing]))⟩
      · exact .inl ⟨by simp, rfl⟩
    · refine .inl ⟨?_, rfl⟩
      split <;> simp
  | fails _ _ _ hfault => exact .inl ⟨FResult.ne_ok_of_isFault hfault, rfl⟩

private theorem write_sets (hok : (v.write file bytes).1.1 = .ok) :
    ∃ content, v.lookup file.path = .file content ∧ (v.write file bytes).1.2 = bytes.length ∧
      Sets v (v.write file bytes).2 file.path
        (.file (content.take file.fptr ++ bytes ++ content.drop (file.fptr + bytes.length))) := by
  unfold Volume.write at hok ⊢
  split at hok
  · rename_i content hcontent
    exact ⟨content, hcontent, rfl,
      sets_put (.inr (Volume.hasParent_of_present (by simp [hcontent]))) (.inl (by simp [hcontent]))⟩
  · cases hok

theorem Exchange.write {answer : FResult × Nat} (h : Exchange (.write file bytes) v answer v') :
    (answer.1 ≠ .ok ∧ v' = v) ∨
      (answer.1 = .ok ∧ answer.2 ≤ bytes.length ∧ ∃ content, v.lookup file.path = .file content ∧
        Sets v v' file.path (.file (content.take file.fptr ++ bytes.take answer.2 ++
          content.drop (file.fptr + answer.2)))) := by
  cases h with
  | performs geometry =>
    change ((v.write file bytes).1.1 ≠ .ok ∧ (v.write file bytes).2 = v) ∨
      ((v.write file bytes).1.1 = .ok ∧ (v.write file bytes).1.2 ≤ _ ∧ _)
    by_cases hok : (v.write file bytes).1.1 = .ok
    · obtain ⟨content, hcontent, hcount, hsets⟩ := write_sets hok
      refine .inr ⟨hok, Nat.le_of_eq hcount, content, hcontent, ?_⟩
      change Sets v (v.write file bytes).2 file.path (.file (content.take file.fptr ++
        bytes.take (v.write file bytes).1.2 ++ content.drop (file.fptr + (v.write file bytes).1.2)))
      rw [hcount, List.take_length]
      exact hsets
    · refine .inl ⟨hok, ?_⟩
      unfold Volume.write at hok ⊢
      split at hok
      · exact absurd rfl hok
      · rfl
  | fails _ _ _ hfault => exact .inl ⟨FResult.ne_ok_of_isFault hfault, rfl⟩
  | short _ _ count _ hshort hok =>
    obtain ⟨content, hcontent, _, hsets⟩ := write_sets hok
    refine .inr ⟨rfl, Nat.le_of_lt hshort, content, hcontent, ?_⟩
    rw [List.length_take, Nat.min_eq_left (Nat.le_of_lt hshort)] at hsets
    exact hsets

theorem Exchange.unlink (h : Exchange (.unlink path) v answer v') :
    (answer.1 ≠ .ok ∧ v' = v ∧ (answer.1 = .noFile ∨ answer.1 = .noPath → v.lookup path = .missing)) ∨
      (answer.1 = .ok ∧ (∃ content, v.lookup path = .file content) ∧ Sets v v' path .missing) := by
  cases h with
  | performs geometry =>
    change ((v.unlink path).1 ≠ .ok ∧ (v.unlink path).2 = v ∧
      ((v.unlink path).1 = _ ∨ (v.unlink path).1 = _ → _)) ∨
      ((v.unlink path).1 = .ok ∧ _ ∧ Sets v (v.unlink path).2 path _)
    unfold Volume.unlink
    split
    · rename_i hmissing
      refine .inl ⟨?_, rfl, fun _ => hmissing⟩
      dsimp only [Volume.absent]
      split <;> simp
    · rename_i content hcontent
      exact .inr ⟨rfl, ⟨content, hcontent⟩, sets_put (.inl rfl) (.inl (by simp [hcontent]))⟩
    · exact .inl ⟨by simp, rfl, by simp⟩
  | fails _ _ _ hfault =>
    refine .inl ⟨FResult.ne_ok_of_isFault hfault, rfl, ?_⟩
    rintro (hmissing | hmissing) <;> rw [hmissing] at hfault <;> cases hfault

theorem Exchange.rename {source destination : Bytes} (h : Exchange (.rename source destination) v answer v') :
    (answer.1 ≠ .ok ∧ v' = v) ∨
      (answer.1 = .ok ∧ v.lookup destination = .missing ∧
        ∃ content, v.lookup source = .file content ∧ Moves v v' source destination content) := by
  cases h with
  | performs geometry =>
    change ((v.rename source destination).1 ≠ .ok ∧ (v.rename source destination).2 = v) ∨
      ((v.rename source destination).1 = .ok ∧ _ ∧ ∃ content, _ ∧
        Moves v (v.rename source destination).2 source destination content)
    unfold Volume.rename
    split
    · refine .inl ⟨?_, rfl⟩
      dsimp only [Volume.absent]
      split <;> simp
    · exact .inl ⟨by simp, rfl⟩
    · rename_i content hcontent
      split
      · rename_i hmissing
        split
        · refine .inr ⟨rfl, hmissing, content, hcontent, ?_⟩
          intro other
          rw [sets_put _ _ other]
          by_cases hdestination : fold other = fold destination
          · rw [if_pos hdestination, if_pos hdestination]
          · rw [if_neg hdestination, if_neg hdestination, sets_put _ _ other]
        · exact .inl ⟨by simp, rfl⟩
      · exact .inl ⟨by simp, rfl⟩
  | fails _ _ _ hfault => exact .inl ⟨FResult.ne_ok_of_isFault hfault, rfl⟩

theorem Exchange.mkdir (h : Exchange (.mkdir path) v answer v') :
    (answer.1 ≠ .ok ∧ v' = v) ∨
      (answer.1 = .ok ∧ v.lookup path = .missing ∧ Sets v v' path .directory) := by
  cases h with
  | performs geometry =>
    change ((v.mkdir path).1 ≠ .ok ∧ (v.mkdir path).2 = v) ∨
      ((v.mkdir path).1 = .ok ∧ _ ∧ Sets v (v.mkdir path).2 path _)
    unfold Volume.mkdir
    split
    · rename_i hmissing
      split
      · rename_i hparent
        exact .inr ⟨rfl, hmissing, sets_put (.inr hparent) (.inr rfl)⟩
      · exact .inl ⟨by simp, rfl⟩
    · exact .inl ⟨by simp, rfl⟩
  | fails _ _ _ hfault => exact .inl ⟨FResult.ne_ok_of_isFault hfault, rfl⟩

end Bmx.FatFs
