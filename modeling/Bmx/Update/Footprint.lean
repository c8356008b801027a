import Bmx.Update.InstallRun
import Mathlib.Logic.Relation

/-!
# What an installation can touch

Two properties of every run, at every point where it may be interrupted: what changed lies in the
footprint the manifest and the selected actions declare, and a new build identity means that
everything else is in place.
-/

namespace Bmx.Update

open Interaction FatFs Zip PlanStep List

/-! ### The footprint -/

inductive InFootprint (call : InstallCall) (before : Volume) (path : Bytes) : Prop
  | temporary (h : call.fs.Locates simpleUpdateTemporaryPath path)
  | directory {directory : Bytes} (hdirectory : directory ∈ call.manifest.asset.directories)
      (h : call.fs.Locates directory path)
  | installed {file : ManifestFile} (hfile : file ∈ call.manifest.asset.files)
      (haction : call.action before file = .installFile) (h : call.fs.Locates file.path path)
  | removed {removal : Bytes} (hremoval : removal ∈ removals call.manifest.asset)
      (h : call.fs.Locates removal path)

/-- Everything that changed is in the footprint, and existing files that are to be preserved keep
their content. -/
structure Confined (call : InstallCall) (before v : Volume) : Prop where
  changed : ∀ path, v.lookup path ≠ before.lookup path → InFootprint call before path
  preserved : ∀ file ∈ call.manifest.asset.files,
    preserves file call.resetConfiguration = true →
    ∀ absolute content, call.fs.resolve file.path = some absolute →
      before.lookup absolute = .file content → v.lookup absolute = .file content

variable {call : InstallCall} {before v : Volume} {path : Bytes}

theorem inFootprint_of_step {step : PlanStep} (hstep : step ∈ (call.course before).plan)
    (h : call.fs.Locates step.path path) : InFootprint call before path := by
  rcases mem_planOf.1 hstep with ⟨file, hfile, haction, rfl⟩ | ⟨removal, hremoval, rfl⟩
  · exact .installed hfile haction h
  · exact .removed hremoval h

theorem changed_of_onPlan (h : (call.course before).OnPlan v)
    (hchanged : v.lookup path ≠ before.lookup path) : InFootprint call before path := by
  obtain ⟨done, hole, hreached⟩ := h
  obtain ⟨rest, hplan, hhole⟩ := hreached.next
  by_contra hout
  have hsteps : ∀ step ∈ (call.course before).plan, ¬ call.fs.Locates step.path path :=
    fun step hstep hlocates => hout (inFootprint_of_step hstep hlocates)
  rw [hplan] at hsteps
  have hframe := hreached.carried.frame path (fun hlocates => hout (.temporary hlocates))
    (fun step hstep => hsteps step (mem_append_left _ hstep)) ?_
  · rcases hframe with hsame | ⟨-, -, directory, hdirectory, hlocates⟩
    · exact hchanged hsame
    · exact hout (.directory hdirectory hlocates)
  · intro target htarget
    obtain ⟨file, later, rfl, rfl⟩ := hhole target htarget
    exact hsteps (.place file) (mem_append_right _ mem_cons_self)

variable {absolute content : Bytes} {file identity : ManifestFile} {done : List PlanStep} {hole : Option Bytes}

theorem mem_plan : place file ∈ (call.course before).plan ↔
    file ∈ call.manifest.asset.files ∧ call.action before file = .installFile := by
  refine ⟨fun hmem => ?_, fun h => mem_planOf.2 (.inl ⟨file, h.1, h.2, rfl⟩)⟩
  rcases mem_planOf.1 hmem with ⟨other, hother, haction, hsame⟩ | ⟨_, -, hremove⟩
  · obtain rfl := place.inj hsame
    exact ⟨hother, haction⟩
  · cases hremove

/-- A file that is not placed yet is as it was, unless it is the one in the hole. -/
theorem unplaced_of_reached (hreached : (call.course before).Reached done hole v)
    (hfile : file ∈ call.manifest.asset.files) (hresolve : call.fs.resolve file.path = some absolute)
    (hunplaced : place file ∉ done) (hhole : ∀ path, hole = some path → ¬ call.fs.Locates path absolute) :
    v.lookup absolute = before.lookup absolute ∨
      (before.lookup absolute = .missing ∧ v.lookup absolute = .directory) := by
  rcases hreached.accepted with haccepted | ⟨-, -, rfl⟩
  · have haccepted : Accepted call.manifest.asset := haccepted
    have hhere : call.fs.Locates file.path absolute := ⟨absolute, hresolve, rfl⟩
    obtain ⟨rest, hplan, -⟩ := hreached.next
    have hsteps : ∀ step ∈ done, fold file.path ≠ fold step.path := by
      intro step hstep
      have hmem : step ∈ (call.course before).plan := by
        rw [hplan]
        exact mem_append_left _ hstep
      rcases mem_planOf.1 hmem with ⟨other, hother, -, rfl⟩ | ⟨removal, hremoval, rfl⟩
      · refine haccepted.apart hfile hother ?_
        rintro rfl
        exact hunplaced hstep
      · exact ((haccepted.removable removal hremoval).2 file hfile).symm
    have hframe := hreached.carried.frame absolute
      (Locates.apart hhere (not_temporary (haccepted.files file hfile)))
      (fun step hstep => Locates.apart hhere (hsteps step hstep)) hhole
    exact hframe.imp_right fun hcreated => ⟨hcreated.1, hcreated.2.1⟩
  · exact .inl rfl

/-- Nothing is found in the hole. -/
theorem apart_hole (hreached : (call.course before).Reached done hole v)
    (hcontent : v.lookup absolute = .file content) : ∀ path, hole = some path → ¬ call.fs.Locates path absolute := by
  rintro path hpath ⟨target, htarget, hkey⟩
  obtain ⟨missing, hmissing, hgone⟩ := hreached.carried.missing path hpath
  obtain rfl : target = missing := Option.some.inj (htarget.symm.trans hmissing)
  rw [Volume.lookup_congr hkey.symm, hcontent] at hgone
  cases hgone

/-- An existing file that is not to be installed keeps its content. -/
theorem kept_of_onPlan (h : (call.course before).OnPlan v) (hfile : file ∈ call.manifest.asset.files)
    (haction : call.action before file ≠ .installFile) (hresolve : call.fs.resolve file.path = some absolute)
    (hcontent : before.lookup absolute = .file content) : v.lookup absolute = .file content := by
  obtain ⟨done, hole, hreached⟩ := h
  obtain ⟨rest, hplan, hhole⟩ := hreached.next
  have hnever : place file ∉ done ++ rest := fun hmem => haction (mem_plan.1 (hplan ▸ hmem)).2
  have hhere : ∀ path, hole = some path → ¬ call.fs.Locates path absolute := by
    intro path hpath
    obtain ⟨other, later, rfl, rfl⟩ := hhole path hpath
    have hother : place other ∈ (call.course before).plan := by
      rw [hplan]
      exact mem_append_right _ mem_cons_self
    rcases hreached.accepted with haccepted | ⟨-, hnone, -⟩
    · refine Locates.apart ⟨absolute, hresolve, rfl⟩
        (Accepted.apart haccepted hfile (mem_plan.1 hother).1 ?_)
      rintro rfl
      exact haction (mem_plan.1 hother).2
    · rw [hpath] at hnone
      cases hnone
  rcases unplaced_of_reached hreached hfile hresolve (fun h => hnever (mem_append_left _ h)) hhere with
    hsame | ⟨hmissing, -⟩
  · exact hsame.trans hcontent
  · rw [hcontent] at hmissing
    cases hmissing

theorem action_of_file (hresolve : call.fs.resolve file.path = some absolute)
    (hcontent : before.lookup absolute = .file content) :
    call.action before file = actionFor call.resetConfiguration file (.file content) := by
  unfold InstallCall.action selectedAction
  rw [hresolve, ← hcontent]

theorem action_preserved (hpreserves : preserves file call.resetConfiguration = true)
    (hresolve : call.fs.resolve file.path = some absolute) (hcontent : before.lookup absolute = .file content) :
    call.action before file ≠ .installFile := by
  rw [action_of_file hresolve hcontent, actionFor, if_pos hpreserves]
  decide

theorem preserved_of_onPlan (h : (call.course before).OnPlan v) (hfile : file ∈ call.manifest.asset.files)
    (hpreserves : preserves file call.resetConfiguration = true)
    (hresolve : call.fs.resolve file.path = some absolute)
    (hcontent : before.lookup absolute = .file content) : v.lookup absolute = .file content :=
  kept_of_onPlan h hfile (action_preserved hpreserves hresolve hcontent) hresolve hcontent

/-- The results `Install` returns before it changes anything: a bad argument, a reserved path, a bad
archive, a volume or free space that is too small, and a cancellation while the card is compared. -/
def earlyStatuses : List SimpleUpdateStatus :=
  [.invalidArgument, .reservedPathCollision, .zipInvalid, .volumeTooSmall, .insufficientSpace,
    .canceled]

/-- `Install` has a confined footprint: at every point of every run, and with no change at all when
it ends early. -/
theorem install_confined {events : List (Event deviceSignature)}
    {rest : Program deviceSignature (SimpleUpdateResult × Handles)}
    (hrun : Steps deviceEnv call.program before events rest v) :
    Confined call before v ∧ ∀ result, rest = .done result →
      result.1.status ∈ earlyStatuses → v = before := by
  have hplan := onPlan_of_steps hrun
  refine ⟨⟨fun path => changed_of_onPlan hplan, ?_⟩, ?_⟩
  · intro file hfile hpreserves absolute content hresolve hcontent
    exact preserved_of_onPlan hplan hfile hpreserves hresolve hcontent
  · rintro result rfl hstatus
    cases ended_of_completes hrun with
    | refused h => exact h.2.1
    | broken h =>
      exfalso
      have hbroken := h.1
      simp only [earlyStatuses, mem_cons, not_mem_nil, or_false] at hstatus hbroken
      rcases hstatus with h | h | h | h | h | h <;> simp [h] at hbroken
    | complete hok =>
      rw [hok] at hstatus
      simp [earlyStatuses] at hstatus

theorem sampleRun_confined : Confined sampleCall sampleCard (sampleRun (fun _ => false) sampleCard).2.2 :=
  (install_confined (sampleRun_completes _ _)).1

/-! ### The build identity -/

/-- The card holds the release's content of this file. -/
def InstallCall.Holds (call : InstallCall) (v : Volume) (file : ManifestFile) : Prop :=
  (place file).Achieved call.fs v

/-- The card holds nothing at this path. -/
def InstallCall.Lacks (call : InstallCall) (v : Volume) (path : Bytes) : Prop :=
  (remove path).Achieved call.fs v

theorem installPass_eq_three : installPass file = 3 ↔ isBuildIdentity file = true := by
  unfold installPass
  split_ifs with hidentity
  all_goals simp [hidentity]

/-- The plan ends with the build identity and names it nowhere else. -/
theorem plan_ends (haccepted : Accepted call.manifest.asset)
    (hfile : identity ∈ call.manifest.asset.files) (hidentity : isBuildIdentity identity = true)
    (haction : call.action before identity = .installFile) :
    ∃ front, (call.course before).plan = front ++ [.place identity] ∧
      place identity ∉ front := by
  have honly : call.manifest.asset.files.filter isBuildIdentity = [identity] := by
    have hcount := haccepted.identity
    rw [countP_eq_length_filter, length_eq_one_iff] at hcount
    obtain ⟨file, hfilter⟩ := hcount
    have hmem : identity ∈ call.manifest.asset.files.filter isBuildIdentity :=
      mem_filter.2 ⟨hfile, hidentity⟩
    rw [hfilter] at hmem ⊢
    rw [mem_singleton.1 hmem]
  have hlast : passSteps 3 (workOf call.fs before call.resetConfiguration call.manifest.asset) =
      [.place identity] := by
    have hpass : ∀ file, (installPass file == 3) = isBuildIdentity file := fun file => by
      rw [Bool.eq_iff_iff, beq_iff_eq, installPass_eq_three]
    have haction' : selectedAction call.fs before call.resetConfiguration identity = .installFile :=
      haction
    have hsplit : (call.manifest.asset.files.filter fun file => isBuildIdentity file &&
        selectedAction call.fs before call.resetConfiguration file == .installFile) = [identity] := by
      have hfilter := filter_filter
        (p := fun file => selectedAction call.fs before call.resetConfiguration file == .installFile)
        (q := isBuildIdentity) (l := call.manifest.asset.files)
      rw [honly, filter_cons_of_pos (by simp [haction'])] at hfilter
      simp only [Bool.and_comm (isBuildIdentity _)]
      exact hfilter.symm
    unfold passSteps workOf
    rw [filter_map]
    simp only [Function.comp_def, hpass, hsplit]
    rfl
  refine ⟨_, congrArg (_ ++ ·) hlast, fun hfront => ?_⟩
  have hother : ∀ pass, pass ≠ 3 → place identity ∉
      passSteps pass (workOf call.fs before call.resetConfiguration call.manifest.asset) := by
    intro pass hpass hmem
    obtain ⟨file, -, hfilepass, -, hsame⟩ := mem_passSteps.1 hmem
    obtain rfl := place.inj hsame
    exact hpass (hfilepass.symm.trans (installPass_eq_three.2 hidentity))
  simp only [mem_append] at hfront
  rcases hfront with ((hmem | hmem) | hmem) | hmem
  · exact hother 0 (by decide) hmem
  · exact hother 1 (by decide) hmem
  · exact hother 2 (by decide) hmem
  · obtain ⟨path, -, hremove⟩ := mem_map.1 hmem
    cases hremove

theorem eq_nil_of_last_mem {α : Type} {front done rest : List α} {last : α}
    (h : front ++ [last] = done ++ rest) (hfront : last ∉ front) (hdone : last ∈ done) : rest = [] := by
  rcases eq_nil_or_concat rest with rfl | ⟨init, final, rfl⟩
  · rfl
  · rw [concat_eq_append, ← append_assoc] at h
    have hinit := (append_inj' h rfl).1
    rw [hinit] at hfront
    exact absurd (mem_append_left _ hdone) hfront

/-- A build identity that became new was placed by the last step of the plan. -/
theorem placed_of_new (h : (call.course before).OnPlan v)
    (hfile : identity ∈ call.manifest.asset.files) (_ : isBuildIdentity identity = true)
    (hold : ¬ call.Holds before identity) (hnew : call.Holds v identity) :
    ∃ done hole, (call.course before).Reached done hole v ∧ place identity ∈ done := by
  obtain ⟨done, hole, hreached⟩ := h
  refine ⟨done, hole, hreached, ?_⟩
  obtain ⟨absolute, content, hresolve, hnode, his⟩ := hnew
  by_contra hnot
  rcases unplaced_of_reached hreached hfile hresolve hnot (apart_hole hreached hnode) with
    hsame | ⟨-, hdirectory⟩
  · exact hold ⟨absolute, content, hresolve, hsame.symm.trans hnode, his⟩
  · rw [hnode] at hdirectory
    cases hdirectory

/-- The build identity is written last: where a run made it new, at whatever point it is interrupted,
every file to be installed is in place and every signed path is gone. -/
theorem identity_written_last {events : List (Event deviceSignature)}
    {rest : Program deviceSignature (SimpleUpdateResult × Handles)} {identity : ManifestFile}
    (hrun : Steps deviceEnv call.program before events rest v)
    (hfile : identity ∈ call.manifest.asset.files) (hidentity : isBuildIdentity identity = true)
    (hold : ¬ call.Holds before identity) (hnew : call.Holds v identity) :
    (∀ file ∈ call.manifest.asset.files, call.action before file = .installFile →
      call.Holds v file) ∧ ∀ path ∈ removals call.manifest.asset, call.Lacks v path := by
  obtain ⟨done, hole, hreached, hplaced⟩ :=
    placed_of_new (onPlan_of_steps hrun) hfile hidentity hold hnew
  obtain ⟨later, hplan, -⟩ := hreached.next
  have hmem : place identity ∈ (call.course before).plan := by
    rw [hplan]
    exact mem_append_left _ hplaced
  have haction : call.action before identity = .installFile := by
    rcases mem_planOf.1 hmem with ⟨file, -, haction, hsame⟩ | ⟨removal, -, hremove⟩
    · obtain rfl := place.inj hsame
      exact haction
    · cases hremove
  have haccepted : Accepted call.manifest.asset := by
    rcases hreached.accepted with haccepted | ⟨rfl, -⟩
    · exact haccepted
    · cases hplaced
  obtain ⟨front, hends, hfront⟩ := plan_ends haccepted hfile hidentity haction
  have hall : (call.course before).plan = done := by
    rw [hplan, eq_nil_of_last_mem (hends.symm.trans hplan) hfront hplaced, append_nil]
  have hachieved : ∀ step ∈ (call.course before).plan, step.Achieved call.fs v := by
    rw [hall]
    exact hreached.carried.achieved
  refine ⟨fun file hfile haction => ?_, fun path hpath => ?_⟩
  · exact hachieved _ (mem_planOf.2 (.inl ⟨file, hfile, haction, rfl⟩))
  · exact hachieved _ (mem_planOf.2 (.inr ⟨path, hpath, rfl⟩))

theorem sampleRun_identity :
    sampleCall.Holds (sampleRun (fun _ => false) sampleCard).2.2 sampleKernel ∧
      sampleCall.Lacks (sampleRun (fun _ => false) sampleCard).2.2 (ascii "OLD") := by
  have hold : ¬ sampleCall.Holds sampleCard sampleIdentity := by
    rintro ⟨absolute, content, hresolve, hnode, hlength, hdigest⟩
    obtain rfl : ascii "SYS:/BMX-BUILD.json" = absolute :=
      Option.some.inj ((by decide : _ = some _).symm.trans hresolve)
    have hstored : sampleCard.lookup (ascii "SYS:/BMX-BUILD.json") = .file (ascii "[]") := by
      decide
    obtain rfl : ascii "[]" = content := Node.file.inj (hstored.symm.trans hnode)
    exact absurd hdigest (by decide +kernel)
  have hnew : sampleCall.Holds (sampleRun (fun _ => false) sampleCard).2.2 sampleIdentity :=
    ⟨ascii "SYS:/BMX-BUILD.json", ascii "{}", by decide +kernel, by decide +kernel, by decide,
      by decide +kernel⟩
  have hall := identity_written_last (sampleRun_completes (fun _ => false) sampleCard)
    (by decide) (by decide) hold hnew
  exact ⟨hall.1 sampleKernel (by decide) (by decide), hall.2 _ (by decide)⟩

/-- A card that has the new build identity already, but not the kernel. -/
def repairCard : Volume := cardOf [(buildIdentityPath, ascii "{}")]

def isGetfree : FatFs.Op → Bool
  | .getfree _ => true
  | _ => false

/-- Reinstalling on such a card and failing before the kernel is written leaves it so. -/
theorem identity_kept_unchanged : ¬ ∀ (call : InstallCall) (before v : Volume)
    (events : List (Event deviceSignature))
    (rest : Program deviceSignature (SimpleUpdateResult × Handles)) (identity : ManifestFile),
    Steps deviceEnv call.program before events rest v → identity ∈ call.manifest.asset.files →
      isBuildIdentity identity = true → call.Holds v identity →
      ∀ file ∈ call.manifest.asset.files, call.action before file = .installFile →
        call.Holds v file := by
  intro hclaim
  have hkernel : sampleCall.Holds (sampleRun isGetfree repairCard).2.2 sampleKernel :=
    hclaim sampleCall repairCard _ _ _ sampleIdentity (sampleRun_completes isGetfree repairCard)
      (by decide) (by decide)
      ⟨ascii "SYS:/BMX-BUILD.json", ascii "{}", by decide +kernel, by decide +kernel, by decide,
        by decide +kernel⟩
      sampleKernel (by decide) (by decide)
  obtain ⟨absolute, content, hresolve, hnode, -⟩ := hkernel
  obtain rfl : ascii "SYS:/kernel8.img" = absolute :=
    Option.some.inj ((by decide : _ = some _).symm.trans hresolve)
  have hmissing : (sampleRun isGetfree repairCard).2.2.lookup (ascii "SYS:/kernel8.img") = .missing := by
    decide +kernel
  rw [hmissing] at hnode
  cases hnode

/-! ### Runs that are repeated -/

/-- `v` is left by runs of the call that were interrupted, one after the other, each at any point. -/
def InstallCall.Retried (call : InstallCall) : Volume → Volume → Prop :=
  Relation.ReflTransGen fun v v' => ∃ events rest, Steps deviceEnv call.program v events rest v'

variable {v' after : Volume}

/-- A file of the release on the card is the one that was there or the one of the release. -/
theorem genuine_of_onPlan (h : (call.course before).OnPlan v) (hfile : file ∈ call.manifest.asset.files)
    (hresolve : call.fs.resolve file.path = some absolute) (hcontent : v.lookup absolute = .file content) :
    before.lookup absolute = .file content ∨ file.Is content := by
  obtain ⟨done, hole, hreached⟩ := h
  by_cases hdone : place file ∈ done
  · obtain ⟨target, placed, htarget, hnode, his⟩ := hreached.carried.achieved _ hdone
    obtain rfl : absolute = target := Option.some.inj (hresolve.symm.trans htarget)
    obtain rfl := Node.file.inj (hcontent.symm.trans hnode)
    exact .inr his
  · rcases unplaced_of_reached hreached hfile hresolve hdone (apart_hole hreached hcontent) with
      hsame | ⟨-, hdirectory⟩
    · exact .inl (hsame.symm.trans hcontent)
    · rw [hcontent] at hdirectory
      cases hdirectory

theorem InstallCall.Retried.files (h : call.Retried before v) (hfile : file ∈ call.manifest.asset.files)
    (hresolve : call.fs.resolve file.path = some absolute) :
    (∀ content, v.lookup absolute = .file content →
      before.lookup absolute = .file content ∨ file.Is content) ∧
      (preserves file call.resetConfiguration = true →
        ∀ content, before.lookup absolute = .file content → v.lookup absolute = .file content) := by
  induction h with
  | refl => exact ⟨fun _ hcontent => .inl hcontent, fun _ _ hcontent => hcontent⟩
  | tail _ hstep ih =>
    obtain ⟨events, rest, hsteps⟩ := hstep
    have hplan := onPlan_of_steps hsteps
    refine ⟨fun content hcontent => ?_, fun hpreserves content hcontent => ?_⟩
    · rcases genuine_of_onPlan hplan hfile hresolve hcontent with hbefore | his
      · exact ih.1 content hbefore
      · exact .inr his
    · exact preserved_of_onPlan hplan hfile hpreserves hresolve (ih.2 hpreserves content hcontent)

/-- What is not installed is there already. -/
theorem exists_of_action (haction : call.action v file ≠ .installFile) : ∃ absolute content,
    call.fs.resolve file.path = some absolute ∧ v.lookup absolute = .file content := by
  unfold InstallCall.action selectedAction at haction
  cases hresolve : call.fs.resolve file.path with
  | none => rw [hresolve] at haction; exact absurd rfl haction
  | some absolute =>
    rw [hresolve] at haction
    dsimp only at haction
    cases hnode : v.lookup absolute with
    | file content => exact ⟨absolute, content, rfl, hnode⟩
    | _ => rw [hnode] at haction; exact absurd rfl haction

/-- A content that no run replaces. -/
def InstallCall.Settled (call : InstallCall) (file : ManifestFile) (content : Bytes) : Prop :=
  actionFor call.resetConfiguration file (.file content) ≠ .installFile

theorem settled_iff :
    call.Settled file content ↔ (preserves file call.resetConfiguration = false → file.Is content) := by
  unfold InstallCall.Settled actionFor
  cases preserves file call.resetConfiguration <;> simp [ManifestFile.Is]

section Success

variable {result : SimpleUpdateResult × Handles} {events : List (Event deviceSignature)}

theorem reached_of_ok (hrun : Completes deviceEnv call.program v events result v') (hok : result.1.status = .ok) :
    (call.course v).Reached (call.course v).plan none v' := by
  cases ended_of_completes hrun with
  | refused h => exact absurd hok h.1
  | broken h =>
    have hbroken := h.1
    rw [hok] at hbroken
    simp at hbroken
  | complete _ card => exact card.reached

/-- A run that succeeds leaves a settled content at the place of every file. -/
theorem settled_of_ok (hrun : Completes deviceEnv call.program v events result v') (hok : result.1.status = .ok)
    (hfile : file ∈ call.manifest.asset.files) : ∃ absolute content, call.fs.resolve file.path = some absolute ∧
      v'.lookup absolute = .file content ∧ call.Settled file content := by
  have hreached := reached_of_ok hrun hok
  by_cases haction : call.action v file = .installFile
  · obtain ⟨absolute, content, hresolve, hcontent, his⟩ :=
      hreached.carried.achieved _ (mem_plan.2 ⟨hfile, haction⟩)
    exact ⟨absolute, content, hresolve, hcontent, settled_iff.2 fun _ => his⟩
  · obtain ⟨absolute, content, hresolve, hcontent⟩ := exists_of_action haction
    refine ⟨absolute, content, hresolve, kept_of_onPlan ⟨_, _, hreached⟩ hfile haction hresolve hcontent, ?_⟩
    rwa [action_of_file hresolve hcontent] at haction

/-- Runs may be interrupted and repeated on the card they leave. Once one succeeds, the card holds every file of the
release but those to be preserved, which are as they were before the first run if they were there, and nothing at the
paths to be removed. -/
theorem install_retried (hearlier : call.Retried before v)
    (hrun : Completes deviceEnv call.program v events result v') (hok : result.1.status = .ok) :
    (∀ file ∈ call.manifest.asset.files, preserves file call.resetConfiguration = false → call.Holds v' file) ∧
      (∀ file ∈ call.manifest.asset.files, preserves file call.resetConfiguration = true →
        ∃ absolute content, call.fs.resolve file.path = some absolute ∧ v'.lookup absolute = .file content ∧
          (before.lookup absolute = .file content ∨
            file.Is content ∧ ∀ old, before.lookup absolute ≠ .file old)) ∧
      ∀ path ∈ removals call.manifest.asset, call.Lacks v' path := by
  refine ⟨fun file hfile hpreserves => ?_, fun file hfile hpreserves => ?_, fun path hpath => ?_⟩
  · obtain ⟨absolute, content, hresolve, hcontent, hsettled⟩ := settled_of_ok hrun hok hfile
    exact ⟨absolute, content, hresolve, hcontent, settled_iff.1 hsettled hpreserves⟩
  · obtain ⟨absolute, content, hresolve, hcontent, -⟩ := settled_of_ok hrun hok hfile
    refine ⟨absolute, content, hresolve, hcontent, ?_⟩
    -- the run that succeeds is one more of the repeated ones
    obtain ⟨hgenuine, hkept⟩ := InstallCall.Retried.files (hearlier.tail ⟨_, _, hrun⟩) hfile hresolve
    by_cases hold : ∃ old, before.lookup absolute = .file old
    · obtain ⟨old, hold⟩ := hold
      obtain rfl := Node.file.inj (hcontent.symm.trans (hkept hpreserves old hold))
      exact .inl hold
    · exact .inr ⟨(hgenuine content hcontent).resolve_left fun h => hold ⟨_, h⟩, not_exists.1 hold⟩
  · exact (reached_of_ok hrun hok).carried.achieved _ (mem_planOf.2 (.inr ⟨path, hpath, rfl⟩))

/-- A run that ends before the kernel is written, and one that writes it. -/
theorem install_retried_repaired :
    sampleCall.Holds (sampleRun (fun _ => false) (sampleRun isGetfree repairCard).2.2).2.2 sampleKernel :=
  (install_retried (.single ⟨_, _, sampleRun_completes isGetfree repairCard⟩)
    (sampleRun_completes (fun _ => false) _) (by decide +kernel)).1 sampleKernel (by decide) (by decide)

/-- Once a run has succeeded, no later one changes a file of the release, wherever it is interrupted. -/
theorem installed_kept (hrun : Completes deviceEnv call.program v events result v') (hok : result.1.status = .ok)
    (hlater : call.Retried v' after) (hfile : file ∈ call.manifest.asset.files)
    (hresolve : call.fs.resolve file.path = some absolute) (hcontent : v'.lookup absolute = .file content) :
    after.lookup absolute = .file content := by
  obtain ⟨_, _, hplace, hnode, hsettled⟩ := settled_of_ok hrun hok hfile
  obtain rfl := Option.some.inj (hresolve.symm.trans hplace)
  obtain rfl := Node.file.inj (hcontent.symm.trans hnode)
  induction hlater with
  | refl => exact hcontent
  | tail _ hstep ih =>
    obtain ⟨events, rest, hsteps⟩ := hstep
    refine kept_of_onPlan (onPlan_of_steps hsteps) hfile ?_ hresolve ih
    rw [action_of_file hresolve ih]
    exact hsettled

theorem installed_kept_again : (sampleRun isGetfree (sampleRun (fun _ => false) sampleCard).2.2).2.2.lookup
    (ascii "SYS:/kernel8.img") = .file (ascii "k") :=
  installed_kept (sampleRun_completes (fun _ => false) sampleCard) (by decide +kernel)
    (.single ⟨_, _, sampleRun_completes isGetfree _⟩) (show sampleKernel ∈ _ by decide) (by decide) (by decide +kernel)

end Success

end Bmx.Update
