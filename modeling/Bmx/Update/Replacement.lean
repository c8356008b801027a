import Bmx.Update.Footprint

/-!
# Replacing one file

`Rename` unlinks the old target before it renames the temporary file over it. A finished run leaves
every target that existed whole exactly if no such rename failed; the file is missing otherwise, and
the clean-up of the temporary file removes the only copy of the new content.
-/

namespace Bmx.Update

open Interaction FatFs Zip Option

variable {call : InstallCall} {before v : Volume} {events : List (Event deviceSignature)}

/-- Every target that existed holds its old content or the whole new content. -/
def WholeTargets (call : InstallCall) (before v : Volume) : Prop :=
  ∀ file ∈ call.manifest.asset.files, ∀ absolute old,
    call.fs.resolve file.path = some absolute → before.lookup absolute = .file old →
    ∃ content, v.lookup absolute = .file content ∧ (content = old ∨ file.Is content)

/-- A finished run is somewhere on the course, and its failed renames are those of the hole. -/
theorem at_of_completes {result : SimpleUpdateResult × Handles}
    (hrun : Completes deviceEnv call.program before events result v) :
    ∃ done hole, (call.course before).Reached done hole v ∧
      failedRenames events = (hole.bind call.fs.resolve).toList := by
  cases ended_of_completes hrun with
  | refused h =>
    obtain ⟨-, hvolume, hlost⟩ := h
    obtain rfl : v = before := hvolume
    exact ⟨[], none, (call.course v).reached_start, hlost⟩
  | broken h =>
    obtain ⟨-, done, hole, hreached, hlost⟩ := h
    exact ⟨done, hole, hreached, hlost⟩
  | complete _ card => exact ⟨_, none, card.reached, card.lost⟩

theorem whole_of_reached {done : List PlanStep} {hole : Option Bytes} {file : ManifestFile}
    {absolute old : Bytes} (hreached : (call.course before).Reached done hole v)
    (hfile : file ∈ call.manifest.asset.files)
    (hresolve : call.fs.resolve file.path = some absolute)
    (hbefore : before.lookup absolute = .file old)
    (hhole : ∀ path, hole = some path → ¬ call.fs.Locates path absolute) :
    ∃ content, v.lookup absolute = .file content ∧ (content = old ∨ file.Is content) := by
  by_cases hdone : PlanStep.place file ∈ done
  · obtain ⟨target, content, htarget, hnode, his⟩ := hreached.carried.achieved _ hdone
    obtain rfl : absolute = target := some.inj (hresolve.symm.trans htarget)
    exact ⟨content, hnode, .inr his⟩
  · rcases unplaced_of_reached hreached hfile hresolve hdone hhole with hsame | ⟨hmissing, -⟩
    · exact ⟨old, hsame.trans hbefore, .inl rfl⟩
    · rw [hbefore] at hmissing
      cases hmissing

/-- A finished run leaves every target whole exactly if no `f_rename` onto a file that existed
failed. -/
theorem whole_iff_no_failed_rename {result : SimpleUpdateResult × Handles}
    (hrun : Completes deviceEnv call.program before events result v) :
    WholeTargets call before v ↔
      ∀ target ∈ failedRenames events, ∀ old, before.lookup target ≠ .file old := by
  obtain ⟨done, hole, hreached, hlost⟩ := at_of_completes hrun
  obtain ⟨rest, hplan, hhole⟩ := hreached.next
  constructor
  · intro hwhole target htarget old hold
    rw [hlost, mem_toList] at htarget
    obtain ⟨path, hpath, hresolve⟩ := bind_eq_some_iff.1 htarget
    obtain ⟨file, later, rfl, rfl⟩ := hhole path hpath
    have hfile : file ∈ call.manifest.asset.files := by
      have hmem : PlanStep.place file ∈ (call.course before).plan := by
        rw [hplan]
        exact List.mem_append_right _ List.mem_cons_self
      rcases mem_planOf.1 hmem with ⟨other, hother, -, hsame⟩ | ⟨_, _, hremove⟩
      · obtain rfl := PlanStep.place.inj hsame
        exact hother
      · cases hremove
    obtain ⟨content, hcontent, -⟩ := hwhole file hfile target old hresolve hold
    obtain ⟨absolute, habsolute, hmissing⟩ := hreached.carried.missing file.path hpath
    obtain rfl : target = absolute := some.inj (hresolve.symm.trans habsolute)
    rw [hcontent] at hmissing
    cases hmissing
  · intro hnone file hfile absolute old hresolve hbefore
    refine whole_of_reached hreached hfile hresolve hbefore ?_
    rintro path hpath ⟨target, htarget, hkey⟩
    refine hnone target ?_ old ?_
    · rw [hlost, hpath]
      exact mem_toList.2 htarget
    · rw [← Volume.lookup_congr hkey, hbefore]

theorem sampleRun_whole : WholeTargets sampleCall sampleCard (sampleRun (fun _ => false) sampleCard).2.2 :=
  (whole_iff_no_failed_rename (sampleRun_completes (fun _ => false) sampleCard)).2 (by
    have hnone : failedRenames (sampleRun (fun _ => false) sampleCard).1 = [] := by decide +kernel
    rw [hnone]
    exact fun _ h => absurd h List.not_mem_nil)

def isRename : FatFs.Op → Bool
  | .rename _ _ => true
  | _ => false

def failedPrimitive : Event deviceSignature → Bool
  | ⟨.inl _, answer⟩ => answer.1.isFault
  | _ => false

/-- One failed primitive, the `f_rename` of the kernel: the old kernel is gone, and so is the new. -/
theorem kernel_lost : (sampleRun isRename sampleCard).1.countP failedPrimitive = 1 ∧
    ¬ WholeTargets sampleCall sampleCard (sampleRun isRename sampleCard).2.2 := by
  refine ⟨by decide +kernel, fun hwhole => ?_⟩
  obtain ⟨content, hcontent, -⟩ := hwhole sampleKernel (by decide)
    (ascii "SYS:/kernel8.img") (ascii "old") (by decide) (by decide)
  have hmissing : (sampleRun isRename sampleCard).2.2.lookup (ascii "SYS:/kernel8.img") = .missing := by
    decide +kernel
  rw [hmissing] at hcontent
  cases hcontent

end Bmx.Update
