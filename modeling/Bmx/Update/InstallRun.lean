import Bmx.Update.InstallerSpec

/-!
# Runs of the installer on a card

`Install` through the FatFs adapter, against every card, archive, progress report and pattern of
failures. What was shown of `Install` call by call holds at every point of a run, finished or
interrupted.
-/

namespace Bmx.Update

open Interaction FatFs Zip List

/-- The calls of FatFs beside those of the archive, the inflater and the progress report. -/
@[reducible] def deviceSignature : Signature := FatFs.signature.sum outsideSignature

def deviceEnv : Env deviceSignature Volume := FatFs.env.beside outsideSignature

/-- A call of `Install`, with the adapter it is given. -/
structure InstallCall where
  fs : FatFsUpdateFileSystem
  hasProgress : Bool
  manifest : ReleaseManifest
  resetConfiguration : Bool
  archiveBytesAuthenticated : Bool
  workspace : SimpleUpdateWorkspace

namespace InstallCall

variable (call : InstallCall) (before : Volume)

/-- The call down to FatFs; the handle pool of the adapter starts closed. -/
def program : Program deviceSignature (SimpleUpdateResult × Handles) :=
  (install call.hasProgress call.manifest call.resetConfiguration call.archiveBytesAuthenticated
    call.workspace).through (call.fs.layer.beside outsideSignature) .closed

def action (file : ManifestFile) : FileAction :=
  selectedAction call.fs before call.resetConfiguration file

def course : Course := courseOf call.fs before call.resetConfiguration call.manifest.asset

end InstallCall

/-! ### Failed renames -/

def failedRename : Event deviceSignature → Option Bytes
  | ⟨.inl (.rename _ destination), answer⟩ => if answer.1 = .ok then none else some destination
  | _ => none

/-- The targets of the `f_rename` calls that failed. -/
def failedRenames (events : List (Event deviceSignature)) : List Bytes :=
  events.filterMap failedRename

def noteDevice (lost : List Bytes) : Event deviceSignature → List Bytes
  | ⟨.inl op, answer⟩ => noteRename lost ⟨op, answer⟩
  | ⟨.inr _, _⟩ => lost

theorem noteDevice_eq (lost : List Bytes) (event : Event deviceSignature) :
    noteDevice lost event = lost ++ (failedRename event).toList := by
  obtain ⟨op | op, answer⟩ := event
  · cases op with
    | rename source destination =>
      change (if answer.1 = .ok then lost else lost ++ [destination]) =
        lost ++ (if answer.1 = .ok then none else some destination).toList
      split
      · exact (append_nil lost).symm
      · rfl
    | _ => exact (append_nil lost).symm
  · exact (append_nil lost).symm

theorem foldl_noteDevice (events : List (Event deviceSignature)) (lost : List Bytes) :
    events.foldl noteDevice lost = lost ++ failedRenames events := by
  induction events generalizing lost with
  | nil => exact (append_nil lost).symm
  | cons event events ih =>
    rw [foldl_cons, ih, noteDevice_eq, append_assoc]
    unfold failedRenames
    rw [filterMap_cons]
    cases failedRename event with
    | none => rfl
    | some destination => rfl

/-! ### From the interface to the device -/

/-- The device under a course: interrupted only on plan. -/
def deviceContract (course : Course) : Contract deviceSignature (Volume × List Bytes) :=
  (deviceEnv.observed noteDevice).under fun s => course.OnPlan s.1

/-- The state of the interface that a device and the adapter's handles stand for. -/
def Stands (r : FsState) (handles : Handles) (s : Volume × List Bytes) : Prop :=
  r = ⟨s.1, handles, s.2⟩

theorem device_holds (course : Course) (op : installSignature.Op) (r : FsState) (handles : Handles)
    (s : Volume × List Bytes) (hpre : course.contract.pre op r) (hstands : Stands r handles s) :
    (course.fs.layer.beside outsideSignature op handles).Holds (deviceContract course)
      (fun reply s' => ∃ r', course.contract.post op r reply.1 r' ∧ Stands r' reply.2 s') s := by
  obtain rfl : r = ⟨s.1, handles, s.2⟩ := hstands
  cases op with
  | inl op =>
    refine (Program.holds_left _ _).2 ?_
    exact (FatFsUpdateFileSystem.layer_holds op hpre).mono fun reply s' hleaves =>
      ⟨_, hleaves, rfl⟩
  | inr op =>
    refine ⟨hpre, fun answer s' hpost => ?_⟩
    obtain rfl : s' = s := Prod.ext hpost.1 hpost.2
    exact ⟨_, rfl, rfl⟩

/-- The end of a call, as the device shows it. -/
def EndedOnCard (course : Course) (result : SimpleUpdateResult × Handles)
    (s : Volume × List Bytes) : Prop :=
  Ended course ⟨course.before, .closed, []⟩ result.1 ⟨s.1, result.2, s.2⟩

theorem Ended.onPlan {course : Course} {r r' : FsState} {result : SimpleUpdateResult}
    (h : Ended course r result r') (hplan : course.OnPlan r.volume) : course.OnPlan r'.volume := by
  cases h with
  | refused h => exact h.2.onPlan hplan
  | broken h =>
    obtain ⟨-, done, hole, card⟩ := h
    exact card.onPlan
  | complete _ card => exact card.onPlan

theorem program_holds (call : InstallCall) (before : Volume) :
    call.program.Holds (deviceContract (call.course before)) (fun result s =>
      (call.course before).OnPlan s.1 ∧ EndedOnCard (call.course before) result s) (before, []) := by
  have hstart : (call.course before).At [] none ⟨before, .closed, []⟩ :=
    ⟨(call.course before).reached_start, rfl⟩
  have hinstall : (install call.hasProgress call.manifest call.resetConfiguration
      call.archiveBytesAuthenticated call.workspace).Holds (call.course before).contract
      (Ended (call.course before) ⟨before, .closed, []⟩) ⟨before, .closed, []⟩ :=
    install_holds hstart rfl
  refine (hinstall.through rfl (device_holds (call.course before))).mono fun result s h => ?_
  obtain ⟨r, hended, rfl⟩ := h
  exact ⟨hended.onPlan hstart.onPlan, hended⟩

variable {call : InstallCall} {before v : Volume} {events : List (Event deviceSignature)}
  {rest : Program deviceSignature (SimpleUpdateResult × Handles)}

theorem onPlan_of_steps (hrun : Steps deviceEnv call.program before events rest v) :
    (call.course before).OnPlan v := by
  have h := Steps.invariant (Steps.observed noteDevice hrun []) (program_holds call before)
  exact h

theorem ended_of_completes {result : SimpleUpdateResult × Handles}
    (hrun : Completes deviceEnv call.program before events result v) :
    EndedOnCard (call.course before) result (v, failedRenames events) := by
  have h := Completes.holds (Steps.observed noteDevice hrun []) (program_holds call before)
  rw [foldl_noteDevice] at h
  exact h.2

/-! ### Running a call

A device to evaluate calls on: chosen FatFs calls fail without effect and all others are performed.
-/

/-- A card on which the broken calls fail, an archive of these bytes and a user who never cancels. -/
def device (geometry : Geometry) (archive : Bytes) (broken : FatFs.Op → Bool) :
    Handler deviceSignature Volume
  | .inl op, v => if broken op then (deviceError op, v) else Volume.perform geometry op v
  | .inr .archiveSize, v => (some archive.length, v)
  | .inr (.archiveRead offset count), v => (readBytes archive offset count, v)
  | .inr .inflateInit, v => ((), v)
  | .inr (.inflate _ _ _), v => (.refused _ _, v)
  | .inr (.report _ _ _), v => (true, v)

theorem device_allowed (geometry : Geometry) (archive : Bytes) (broken : FatFs.Op → Bool)
    (op : deviceSignature.Op) (v : Volume) :
    deviceEnv op v (device geometry archive broken op v).1 (device geometry archive broken op v).2 := by
  obtain op | op := op
  · cases hbroken : broken op with
    | true =>
      simp only [device, hbroken]
      exact .fails op v (deviceError op) (by cases op <;> rfl)
    | false =>
      simp only [device, hbroken, Bool.false_eq_true]
      exact .performs geometry op v
  · cases op <;> exact rfl

/-- A kernel, a build identity and one signed deletion. -/
def sampleKernel : ManifestFile where
  path := ascii "kernel8.img"
  size := 1
  sha256 := sampleDigest
  policy := .kernel
  compression := .store

def sampleIdentity : ManifestFile where
  path := buildIdentityPath
  size := 2
  sha256 := ⟨[0x44, 0x13, 0x6f, 0xa3, 0x55, 0xb3, 0x67, 0x8a, 0x11, 0x46, 0xad, 0x16, 0xf7, 0xe8, 0x64,
    0x9e, 0x94, 0xfb, 0x4f, 0xc2, 0x1f, 0xe7, 0x7e, 0x83, 0x10, 0xc0, 0x60, 0xf6, 0x1c, 0xaa, 0xff,
    0x8a], rfl⟩
  policy := .metadata
  compression := .store

def sampleAsset : ManifestAsset where
  board := .pi4Pi400
  filename := ascii "bmx.zip"
  downloadSize := 231
  sha256 := sampleIdentity.sha256
  installedSize := 3
  requiredPeakBytes := 3
  files := [sampleKernel, sampleIdentity]
  directories := []
  deletions := [ascii "OLD"]
  replacements := []
  configurationResetRequired := false

def sampleManifest : ReleaseManifest where
  manifestVersion := 1
  version := ascii "1.0.0"
  tag := ascii "v1.0.0"
  sourceCommit := []
  releaseSequence := 1
  releaseEpoch := 1
  minimumUpdaterAbi := 1
  maximumUpdaterAbi := 1
  signingKeyIds := []
  schemas := []
  migrations := []
  lossyChanges := []
  asset := sampleAsset

def sampleCall : InstallCall where
  fs := .configure (ascii "SYS:") .portableRelease (2 ^ 32 - 1)
  hasProgress := false
  manifest := sampleManifest
  resetConfiguration := false
  archiveBytesAuthenticated := true
  workspace := ⟨true, 8, true, 8, true, 8, true, 8, true, true, 4096⟩

def sampleRelease : Bytes :=
  storedArchive [⟨ascii "kernel8.img", false, ascii "k"⟩, ⟨buildIdentityPath, false, ascii "{}"⟩]

/-- The last release on a card. -/
def sampleCard : Volume :=
  cardOf [(ascii "kernel8.img", ascii "old"), (buildIdentityPath, ascii "[]"), (ascii "OLD", ascii "x")]

def sampleRun (broken : FatFs.Op → Bool) (card : Volume) :
    List (Event deviceSignature) × (SimpleUpdateResult × Handles) × Volume :=
  sampleCall.program.run (device ⟨200000, 8, 512, 300000, 1000, 0⟩ sampleRelease broken) card

theorem sampleRun_completes (broken : FatFs.Op → Bool) (card : Volume) :
    Completes deviceEnv sampleCall.program card (sampleRun broken card).1 (sampleRun broken card).2.1
      (sampleRun broken card).2.2 := by
  unfold sampleRun
  exact Program.run_completes (device_allowed _ _ _) _ _

end Bmx.Update
