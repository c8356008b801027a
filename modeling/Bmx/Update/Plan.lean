import Bmx.Update.FileSystemSpec
import Bmx.Update.Installer

/-!
# What an installation is for

A release is a plan: files to put in place, in passes, paths to remove, and the build identity
last. The card always is where some prefix of the plan leaves it, except for the temporary file, the
declared directories, and the one target that is being replaced.
-/

namespace Bmx.Update

open Interaction FatFs List

/-! ### Plans -/

variable {fs : FatFsUpdateFileSystem}

/-- The content is the one the manifest signs for this file. -/
def ManifestFile.Is (file : ManifestFile) (content : Bytes) : Prop :=
  content.length = file.size ∧ sha256Digest content = some file.sha256

inductive PlanStep
  | place (file : ManifestFile)
  | remove (path : Bytes)

def PlanStep.path : PlanStep → Bytes
  | .place file => file.path
  | .remove path => path

/-- The step has been carried out. -/
def PlanStep.Achieved (fs : FatFsUpdateFileSystem) (v : Volume) : PlanStep → Prop
  | .place file => ∃ absolute content, fs.resolve file.path = some absolute ∧
      v.lookup absolute = .file content ∧ file.Is content
  | .remove path => ∃ absolute, fs.resolve path = some absolute ∧ v.lookup absolute = .missing

def PlanStep.Respects (later earlier : PlanStep) : Prop :=
  fold earlier.path ≠ fold later.path ∨
    ∃ path path', earlier = .remove path ∧ later = .remove path'

/-- The card after these steps of the plan, when it started as `v₀`. In the hole, if there is one, a
file is missing that was to be replaced next. -/
structure Carried (fs : FatFsUpdateFileSystem) (directories : List Bytes) (v₀ : Volume)
    (done : List PlanStep) (hole : Option Bytes) (v : Volume) : Prop where
  achieved : ∀ step ∈ done, step.Achieved fs v
  missing : ∀ path, hole = some path →
    ∃ absolute, fs.resolve path = some absolute ∧ v.lookup absolute = .missing
  frame : ∀ key, ¬ fs.Locates simpleUpdateTemporaryPath key →
    (∀ step ∈ done, ¬ fs.Locates step.path key) → (∀ path, hole = some path → ¬ fs.Locates path key) →
    v.lookup key = v₀.lookup key ∨ (v₀.lookup key = .missing ∧ v.lookup key = .directory ∧
      ∃ directory ∈ directories, fs.Locates directory key)

namespace Carried

variable {directories : List Bytes} {v₀ v v' : Volume} {done : List PlanStep} {hole : Option Bytes}

theorem start (fs : FatFsUpdateFileSystem) (directories : List Bytes) (v₀ : Volume) :
    Carried fs directories v₀ [] none v₀ where
  achieved _ h := absurd h not_mem_nil
  missing _ h := by cases h
  frame _ _ _ _ := .inl rfl

theorem achieved_of_same {step : PlanStep} (h : step.Achieved fs v)
    (hsame : ∀ absolute, fs.resolve step.path = some absolute →
      v'.lookup absolute = v.lookup absolute) : step.Achieved fs v' := by
  cases step with
  | place file =>
    obtain ⟨absolute, content, hresolve, hnode, his⟩ := h
    exact ⟨absolute, content, hresolve, (hsame absolute hresolve).trans hnode, his⟩
  | remove path =>
    obtain ⟨absolute, hresolve, hnode⟩ := h
    exact ⟨absolute, hresolve, (hsame absolute hresolve).trans hnode⟩

theorem temporary {absolute : Bytes} {node : FatFs.Node} (h : Carried fs directories v₀ done hole v)
    (hresolve : fs.resolve simpleUpdateTemporaryPath = some absolute)
    (hsets : Sets v v' absolute node)
    (hdone : ∀ step ∈ done, fold step.path ≠ fold simpleUpdateTemporaryPath)
    (hhole : ∀ path, hole = some path → fold path ≠ fold simpleUpdateTemporaryPath) :
    Carried fs directories v₀ done hole v' where
  achieved step hstep := by
    refine achieved_of_same (h.achieved step hstep) fun target htarget => hsets.off ?_
    rw [ne_eq, fold_resolve htarget hresolve]
    exact hdone step hstep
  missing path hpath := by
    obtain ⟨target, htarget, hnode⟩ := h.missing path hpath
    refine ⟨target, htarget, (hsets.off ?_).trans hnode⟩
    rw [ne_eq, fold_resolve htarget hresolve]
    exact hhole path hpath
  frame key htemporary hsteps hhole' := by
    have hoff : v'.lookup key = v.lookup key :=
      hsets.off fun hkey => htemporary ((locates_iff hresolve).2 hkey)
    rw [hoff]
    exact h.frame key htemporary hsteps hhole'

theorem directory {path absolute : Bytes} (h : Carried fs directories v₀ [] none v)
    (hpath : path ∈ directories) (hresolve : fs.resolve path = some absolute)
    (hnothing : v.lookup absolute = .missing) (hsets : Sets v v' absolute .directory) :
    Carried fs directories v₀ [] none v' where
  achieved _ hstep := absurd hstep not_mem_nil
  missing _ hhole := by cases hhole
  frame key htemporary hsteps hhole := by
    have hbefore := h.frame key htemporary hsteps hhole
    by_cases hkey : fold key = fold absolute
    · rw [Volume.lookup_congr hkey, hnothing] at hbefore
      rcases hbefore with hsame | ⟨-, hdirectory, -⟩
      · refine .inr ⟨?_, ?_, path, hpath, (locates_iff hresolve).2 hkey⟩
        · exact hsame.symm
        · rw [Volume.lookup_congr hkey, hsets.at]
      · cases hdirectory
    · rw [hsets.off hkey]
      exact hbefore

theorem makeRoom {path absolute : Bytes} (h : Carried fs directories v₀ done none v)
    (hresolve : fs.resolve path = some absolute) (hsets : Sets v v' absolute .missing)
    (hdone : ∀ step ∈ done, fold step.path ≠ fold path) :
    Carried fs directories v₀ done (some path) v' where
  achieved step hstep := by
    refine achieved_of_same (h.achieved step hstep) fun target htarget => hsets.off ?_
    rw [ne_eq, fold_resolve htarget hresolve]
    exact hdone step hstep
  missing path' hpath := by
    cases hpath
    exact ⟨absolute, hresolve, hsets.at⟩
  frame key htemporary hsteps hhole := by
    have hoff : v'.lookup key = v.lookup key :=
      hsets.off fun hkey => hhole path rfl ((locates_iff hresolve).2 hkey)
    rw [hoff]
    exact h.frame key htemporary hsteps fun _ hnone => by cases hnone

theorem place {file : ManifestFile} {source target content : Bytes} (h : Carried fs directories v₀ done none v)
    (hsource : fs.resolve simpleUpdateTemporaryPath = some source)
    (htarget : fs.resolve file.path = some target) (hmoves : Moves v v' source target content)
    (his : file.Is content)
    (hdone : ∀ step ∈ done, fold step.path ≠ fold file.path ∧
      fold step.path ≠ fold simpleUpdateTemporaryPath) :
    Carried fs directories v₀ (done ++ [.place file]) none v' where
  achieved step hstep := by
    rcases mem_append.1 hstep with hstep | hstep
    · obtain ⟨hfile, htemporary⟩ := hdone step hstep
      refine achieved_of_same (h.achieved step hstep) fun other hother => ?_
      rw [hmoves other, if_neg, if_neg]
      · rw [fold_resolve hother hsource]
        exact htemporary
      · rw [fold_resolve hother htarget]
        exact hfile
    · rw [mem_singleton.1 hstep]
      exact ⟨target, content, htarget, by rw [hmoves target, if_pos rfl], his⟩
  missing _ hhole := by cases hhole
  frame key htemporary hsteps _ := by
    have hoff : v'.lookup key = v.lookup key := by
      have hnotTarget : ¬ fold key = fold target := fun hkey =>
        hsteps (.place file) (mem_append_right _ (mem_singleton.2 rfl))
          ((locates_iff htarget).2 hkey)
      have hnotSource : ¬ fold key = fold source := fun hkey =>
        htemporary ((locates_iff hsource).2 hkey)
      rw [hmoves key, if_neg hnotTarget, if_neg hnotSource]
    rw [hoff]
    exact h.frame key htemporary (fun step hstep => hsteps step (mem_append_left _ hstep))
      fun _ hnone => by cases hnone

theorem remove {path absolute : Bytes} (h : Carried fs directories v₀ done none v)
    (hresolve : fs.resolve path = some absolute) (hsets : Sets v v' absolute .missing)
    (hdone : ∀ step ∈ done, (PlanStep.remove path).Respects step) :
    Carried fs directories v₀ (done ++ [.remove path]) none v' where
  achieved step hstep := by
    rcases mem_append.1 hstep with hstep | hstep
    · have hbefore := h.achieved step hstep
      rcases hdone step hstep with hapart | ⟨other, path', rfl, -⟩
      · refine achieved_of_same hbefore fun target htarget => hsets.off ?_
        rw [ne_eq, fold_resolve htarget hresolve]
        exact hapart
      · obtain ⟨target, htarget, hnode⟩ := hbefore
        refine ⟨target, htarget, ?_⟩
        rw [hsets target]
        split
        · rfl
        · exact hnode
    · rw [mem_singleton.1 hstep]
      exact ⟨absolute, hresolve, hsets.at⟩
  missing _ hhole := by cases hhole
  frame key htemporary hsteps _ := by
    have hoff : v'.lookup key = v.lookup key := hsets.off fun hkey =>
      hsteps (.remove path) (mem_append_right _ (mem_singleton.2 rfl))
        ((locates_iff hresolve).2 hkey)
    rw [hoff]
    exact h.frame key htemporary (fun step hstep => hsteps step (mem_append_left _ hstep))
      fun _ hnone => by cases hnone

end Carried

/-! ### The plan of a release -/

def actionFor (resetConfiguration : Bool) (file : ManifestFile) : FatFs.Node → FileAction
  | .file content =>
    if preserves file resetConfiguration then .preserveExisting
    else if content.length = file.size ∧ sha256Digest content = some file.sha256 then .keepUnchanged
    else .installFile
  | _ => .installFile

def selectedAction (fs : FatFsUpdateFileSystem) (v : Volume) (resetConfiguration : Bool)
    (file : ManifestFile) : FileAction :=
  match fs.resolve file.path with
  | some absolute => actionFor resetConfiguration file (v.lookup absolute)
  | none => .installFile

/-- The files of one pass that are to be installed. -/
def passSteps (pass : Nat) (work : List (ManifestFile × FileAction)) : List PlanStep :=
  (work.filter fun item => installPass item.1 == pass && item.2 == .installFile).map (.place ·.1)

/-- The signed deletions and the paths of the signed replacements. -/
def removals (asset : ManifestAsset) : List Bytes :=
  asset.deletions ++ asset.replacements.map (·.path)

/-- Managed files, kernels, configuration templates, then the removals, then the build identity. -/
def planOf (asset : ManifestAsset) (work : List (ManifestFile × FileAction)) : List PlanStep :=
  passSteps 0 work ++ passSteps 1 work ++ passSteps 2 work ++ (removals asset).map .remove ++
    passSteps 3 work

def workOf (fs : FatFsUpdateFileSystem) (v : Volume) (resetConfiguration : Bool)
    (asset : ManifestAsset) : List (ManifestFile × FileAction) :=
  asset.files.map fun file => (file, selectedAction fs v resetConfiguration file)

/-- No step of the plan is undone by a later one or touches the temporary file. -/
structure Sound (plan : List PlanStep) : Prop where
  respects : plan.Pairwise fun earlier later => later.Respects earlier
  temporary : ∀ step ∈ plan, fold step.path ≠ fold simpleUpdateTemporaryPath

theorem Sound.place {done rest : List PlanStep} {file : ManifestFile}
    (h : Sound (done ++ .place file :: rest)) : ∀ step ∈ done, fold step.path ≠ fold file.path ∧
      fold step.path ≠ fold simpleUpdateTemporaryPath := by
  intro step hstep
  refine ⟨?_, h.temporary step (mem_append_left _ hstep)⟩
  rcases (pairwise_append.1 h.respects).2.2 step hstep _ mem_cons_self with
    hapart | ⟨_, _, _, hremove⟩
  · exact hapart
  · cases hremove

theorem Sound.remove {done rest : List PlanStep} {path : Bytes} (h : Sound (done ++ .remove path :: rest)) :
    ∀ step ∈ done, (PlanStep.remove path).Respects step := fun step hstep =>
  (pairwise_append.1 h.respects).2.2 step hstep _ mem_cons_self

end Bmx.Update
