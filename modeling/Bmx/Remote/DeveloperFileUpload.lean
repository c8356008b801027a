import Bmx.Remote.FaultyFileSystem

/-!
# Uploads on a card

A transaction through the FatFs adapter, on every card and with every pattern of failures. What was
shown of a transaction call by call holds wherever a run is interrupted.
-/

namespace Bmx.Remote

open Interaction FatFs Update TransactionCall

/-! ### Careful runs -/

namespace Upload

variable (u : Upload)

/-- The exchange is a failed stat of this path, in FatFs or in a call above it. -/
def FailsStat : (op : uploadSignature.Op) → uploadSignature.Answer op → Bytes → Prop
  | .inl (.stat absolute), answer, path => absolute = path ∧ FResult.isFault answer.1 = true
  | .inr (.stat name), fails, path => u.fs.resolve name = some path ∧ fails = true
  | _, _, _ => False

/-- Every pattern of failures but those that are careless. -/
def carefulEnv (before : Volume) (guarded : Bytes → Prop) (careful : Prop) :
    Env uploadSignature Volume := fun op v answer v' => uploadEnv op v answer v' ∧
  (careful → ∀ path, u.FailsStat op answer path → ¬ u.Endangered before guarded path v)

end Upload

namespace Transfer

variable {f : Transfer} {v : Volume} {r : FsState} {name : Bytes}

def device (f : Transfer) : Contract uploadSignature Volume :=
  (f.upload.carefulEnv f.before f.guarded f.careful).under f.Safe

/-- The device of a careful upload fails no stat of an endangered path. -/
theorem device_sturdy {op : uploadSignature.Op} {answer : uploadSignature.Answer op} {v' : Volume}
    (hpost : f.device.post op v answer v') :
    (frailDevice f.upload.fs f.Safe fun path v =>
      f.careful ∧ f.upload.Endangered f.before f.guarded path v).post op v answer v' := by
  refine ⟨hpost.1, ?_⟩
  rintro path hfails ⟨hc, hendangered⟩
  have hsame : f.upload.FailsStat op answer path := by
    cases op with
    | inl op | inr op => cases op <;> exact hfails
  exact hpost.2 hc path hsame hendangered

/-- The adapter, where its calls may also fail at once, meets the contract of the transaction. -/
theorem layer_holds {op : FileSystemOp} {handles : Handles} {lost : List Bytes}
    (hpre : f.contract.pre op ⟨v, handles, lost⟩) :
    (f.upload.fs.layer.faulty failureOf op handles).Holds f.device (fun reply v' =>
      ∃ lost', f.contract.post op ⟨v, handles, lost⟩ reply.1 ⟨v', reply.2, lost'⟩) v := by
  have hlayer := (faultyLayer_holds hpre).contract_mono (D := f.device) (fun _ _ h => h)
    fun _ _ _ _ _ hpost => device_sturdy hpost
  refine hlayer.mono fun reply v' hreply => ?_
  obtain ⟨lost', houtcome, -, hclean⟩ := hreply
  refine ⟨lost', houtcome, fun hc hcareless => ?_⟩
  cases op with
  | stat name =>
    obtain ⟨hnone, path, hpath, hendangered⟩ := hcareless
    exact hclean ⟨hnone, path, hpath, hc, hendangered⟩
  | _ => exact hcareless

/-- The state of the file system that a card and the adapter's handles stand for. -/
def Stands (r : FsState) (handles : Handles) (v : Volume) : Prop := ∃ lost, r = ⟨v, handles, lost⟩

theorem onCard_holds {t : DeveloperFileTransaction} (hidle : Idle t) {calls : List TransactionCall}
    (hwhole : f.whole = body calls) (handles : Handles) :
    (f.upload.onCard t calls handles).Holds f.device (fun _ v => f.Safe v) f.before := by
  have hprogram : (f.upload.program t calls).Holds f.contract (fun _ r => f.Safe r.volume)
      ⟨f.before, handles, []⟩ :=
    (begin_holds hidle rfl).bind fun _ _ h => applyAll_holds h hwhole
  have hstands : Stands ⟨f.before, handles, []⟩ handles f.before := ⟨[], rfl⟩
  refine (hprogram.through hstands ?_).mono ?_
  · rintro op r handles v hpre ⟨lost, rfl⟩
    refine (layer_holds hpre).mono fun reply v' hreply => ?_
    obtain ⟨lost', hpost⟩ := hreply
    exact ⟨_, hpost, lost', rfl⟩
  · rintro reply v ⟨_, hsafe, lost, rfl⟩
    exact hsafe

end Transfer

/-! ### What every run keeps -/

section Runs

variable {u : Upload} {t : DeveloperFileTransaction} {calls : List TransactionCall} {handles : Handles}
  {before v : Volume} {events : List (Event uploadSignature)}
  {rest : Program uploadSignature (DeveloperFileTransaction × Handles)}

/-- An upload that guards what was there before, but for its target. -/
def transfer (u : Upload) (before : Volume) (calls : List TransactionCall) (careful : Prop) :
    Transfer where
  upload := u
  before := before
  whole := body calls
  guarded := u.Others before
  others _ h := h
  congr path other hsame h := by
    refine ⟨fun htarget => h.1 (hsame.symm.trans htarget), ?_⟩
    rw [Volume.lookup_congr hsame]
    exact h.2
  careful := careful

theorem safe_of_steps {careful : Prop} (hidle : Idle t)
    (hrun : Steps (u.carefulEnv before (u.Others before) careful) (u.onCard t calls handles) before
      events rest v) : (transfer u before calls careful).Safe v := by
  have hholds := Transfer.onCard_holds (f := transfer u before calls careful) hidle rfl handles
  exact hrun.invariant (Q := fun _ _ => True) (hholds.mono fun _ _ hsafe => ⟨hsafe, trivial⟩)

/-- An upload never loses its target: at every point of every run a target that was there is there
still, or aside under a backup name, or replaced by the whole new content; and what the target
holds is the old content or the whole new one. -/
theorem upload_keeps_target (hidle : Idle t)
    (hrun : Steps uploadEnv (u.onCard t calls handles) before events rest v) :
    (∀ old, before.lookup u.target = .file old → v.lookup u.target = .file old ∨
      (∃ backup, u.IsBackup backup ∧ v.lookup backup = .file old) ∨
      (v.lookup u.target = .file (body calls) ∧
        u.Complete (body calls))) ∧
    (∀ content, v.lookup u.target = .file content → before.lookup u.target = .file content ∨
      (content = body calls ∧ u.Complete content)) := by
  have hany : Steps (u.carefulEnv before (u.Others before) False) (u.onCard t calls handles) before
      events rest v := hrun.env_mono fun _ _ _ _ hanswer => ⟨hanswer, False.elim⟩
  have hkept := (safe_of_steps hidle hany).kept
  constructor
  · intro old hold
    cases hkept with
    | same h => exact .inl (h.trans hold)
    | aside hbackup _ h => exact .inr (.inl ⟨_, hbackup, h.trans hold⟩)
    | replaced hcomplete h => exact .inr (.inr ⟨h, hcomplete⟩)
  · intro content hcontent
    cases hkept with
    | same h => exact .inl (h.symm.trans hcontent)
    | aside _ hgone _ => exact absurd (hgone.symm.trans hcontent) (by simp)
    | replaced hcomplete h =>
      obtain rfl : content = body calls := Node.file.inj (hcontent.symm.trans h)
      exact .inr ⟨rfl, hcomplete⟩

/-- As long as no stat fails on a taken name while the temporary name is searched for, an upload
leaves everything that was there before as it was, but for its target. -/
theorem careful_upload_spares (hidle : Idle t)
    (hrun : Steps (u.carefulEnv before (u.Others before) True) (u.onCard t calls handles) before
      events rest v)
    {path : Bytes} (hpath : fold path ≠ fold u.target) (hpresent : before.lookup path ≠ .missing) :
    v.lookup path = before.lookup path :=
  (safe_of_steps hidle hrun).spared trivial path ⟨hpath, hpresent⟩

end Runs

/-! ### Running an upload -/

/-- A card on which the broken calls of FatFs fail, and the failing calls above it. -/
def uploadDevice (geometry : Geometry) (broken : FatFs.Op → Bool) (fails : FileSystemOp → Bool) :
    Handler uploadSignature Volume
  | .inl op, v => if broken op then (deviceError op, v) else Volume.perform geometry op v
  | .inr op, v => (fails op, v)

theorem uploadDevice_allowed (geometry : Geometry) (broken : FatFs.Op → Bool)
    (fails : FileSystemOp → Bool) (op : uploadSignature.Op) (v : Volume) :
    uploadEnv op v (uploadDevice geometry broken fails op v).1
      (uploadDevice geometry broken fails op v).2 := by
  cases op with
  | inl op =>
    cases hbroken : broken op with
    | true =>
      simp only [uploadDevice, hbroken]
      exact .fails op v (deviceError op) (by cases op <;> rfl)
    | false =>
      simp only [uploadDevice, hbroken, Bool.false_eq_true]
      exact .performs geometry op v
  | inr op => exact rfl

def sampleUpload : Upload where
  fs := .configure (ascii "SYS:") .developer (2 ^ 32 - 1)
  request :=
    { path := ascii "A"
      contentLength := 1
      expectedSha256 := sampleDigest
      requestToken := 1 }

def sampleCalls : List TransactionCall := [.write (some (ascii "k")), .finish]

def sampleName : Bytes := ascii ".bmx-u00000001.tmp"

def sampleUploadRun (fails : FileSystemOp → Bool) (card : Volume) :
    List (Event uploadSignature) × (DeveloperFileTransaction × Handles) × Volume :=
  (sampleUpload.onCard .create sampleCalls .closed).run
    (uploadDevice ⟨200000, 8, 512, 300000, 1000, 0⟩ (fun _ => false) fails) card

theorem sampleUploadRun_completes (fails : FileSystemOp → Bool) (card : Volume) :
    Completes uploadEnv (sampleUpload.onCard .create sampleCalls .closed) card
      (sampleUploadRun fails card).1 (sampleUploadRun fails card).2.1
      (sampleUploadRun fails card).2.2 := by
  unfold sampleUploadRun
  exact Program.run_completes (uploadDevice_allowed _ _ _) _ _

def sampleTargetCard : Volume := cardOf [(ascii "A", ascii "old")]

def sampleNameCard : Volume := cardOf [(sampleName, ascii "x")]

theorem sampleUpload_keeps_target :
    let v := (sampleUploadRun (fun _ => false) sampleTargetCard).2.2
    (∀ old, sampleTargetCard.lookup sampleUpload.target = .file old →
      v.lookup sampleUpload.target = .file old ∨
      (∃ backup, sampleUpload.IsBackup backup ∧ v.lookup backup = .file old) ∨
      (v.lookup sampleUpload.target = .file (body sampleCalls) ∧
        sampleUpload.Complete (body sampleCalls))) ∧
    (∀ content, v.lookup sampleUpload.target = .file content →
      sampleTargetCard.lookup sampleUpload.target = .file content ∨
      (content = body sampleCalls ∧ sampleUpload.Complete content)) :=
  upload_keeps_target idle_create (sampleUploadRun_completes _ _)

/-- An upload whose stat of a taken temporary name fails removes what has that name. -/
theorem sampleUpload_removes_name :
    ¬ ∀ (u : Upload) (t : DeveloperFileTransaction) (calls : List TransactionCall) (handles : Handles)
      (before v : Volume) (events : List (Event uploadSignature))
      (rest : Program uploadSignature (DeveloperFileTransaction × Handles)), Idle t →
      Steps uploadEnv (u.onCard t calls handles) before events rest v → ∀ path,
        fold path ≠ fold u.target → before.lookup path ≠ .missing →
          v.lookup path = before.lookup path := by
  intro h
  have hsame := h sampleUpload .create sampleCalls .closed sampleNameCard _ _ _ idle_create
    (sampleUploadRun_completes (fun op => op == .stat sampleName) sampleNameCard)
    (ascii "SYS:/" ++ sampleName) (by decide) (by decide)
  revert hsame
  decide

theorem uploadDevice_careful (geometry : Geometry) (u : Upload) (before : Volume)
    (guarded : Bytes → Prop) (careful : Prop) (op : uploadSignature.Op) (v : Volume) :
    u.carefulEnv before guarded careful op v
      (uploadDevice geometry (fun _ => false) (fun _ => false) op v).1
      (uploadDevice geometry (fun _ => false) (fun _ => false) op v).2 := by
  refine ⟨uploadDevice_allowed _ _ _ _ _, fun _ path hfails => ?_⟩
  cases op with
  | inl op =>
    cases op with
    | stat absolute =>
      obtain ⟨-, hfault⟩ := hfails
      change (v.stat absolute).1.isFault = true at hfault
      unfold Volume.stat Volume.absent at hfault
      split at hfault
      · dsimp only at hfault
        split at hfault <;> cases hfault
      · cases hfault
      · cases hfault
    | _ => exact hfails.elim
  | inr op =>
    cases op with
    | stat name => exact absurd hfails.2 (by simp [uploadDevice])
    | _ => exact hfails.elim

theorem sampleUpload_spares :
    (sampleUploadRun (fun _ => false) sampleNameCard).2.2.lookup (ascii "SYS:/" ++ sampleName) =
      sampleNameCard.lookup (ascii "SYS:/" ++ sampleName) := by
  have hrun : Steps (sampleUpload.carefulEnv sampleNameCard (sampleUpload.Others sampleNameCard) True)
      (sampleUpload.onCard .create sampleCalls .closed) sampleNameCard
      (sampleUploadRun (fun _ => false) sampleNameCard).1 _
      (sampleUploadRun (fun _ => false) sampleNameCard).2.2 :=
    Program.run_completes (uploadDevice_careful _ _ _ _ _) _ _
  exact careful_upload_spares idle_create hrun (by decide) (by decide)

end Bmx.Remote
