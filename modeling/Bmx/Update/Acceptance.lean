import Mathlib.Data.List.Pairwise
import Bmx.Update.Course
import Bmx.Zip.ExtractSpec

/-!
# What the checks of a release establish

The checks of the manifest and the binding of the archive to it, put together: no two steps of the
plan are about the same path, none is about the temporary file, and there is one build identity.
-/

namespace Bmx.Update

open Interaction FatFs Zip List

/-! ### The checks of the manifest -/

variable {files : List ManifestFile} {identities total pass : Nat} {path : Bytes} {paths : List Bytes}
  {replacements : List ManifestReplacement} {resetConfiguration : Bool} {status : SimpleUpdateStatus}
  {fs : FatFsUpdateFileSystem} {v : Volume} {step : PlanStep}

theorem checkFiles_ok {result : Nat × Nat} (h : checkFiles files identities total = .ok result) :
    (∀ file ∈ files, isReservedPath file.path = false) ∧
      result.1 = identities + files.countP isBuildIdentity := by
  induction files generalizing identities total with
  | nil =>
    cases h
    exact ⟨fun _ h => absurd h not_mem_nil, rfl⟩
  | cons file rest ih =>
    unfold checkFiles at h
    split at h
    · cases h
    · rename_i hfree
      split at h
      · cases h
      · obtain ⟨hrest, hcount⟩ := ih h
        refine ⟨forall_mem_cons.2 ⟨Bool.eq_false_iff.2 hfree, hrest⟩, ?_⟩
        rw [hcount, countP_cons]
        split
        · omega
        · omega

/-- A path the checks let the installer remove. -/
def Removable (files : List ManifestFile) (path : Bytes) : Prop :=
  isReservedPath path = false ∧ ∀ file ∈ files, fold path ≠ fold file.path

theorem removable_of_not (hfree : ¬ isReservedPath path = true)
    (hother : ¬ (files.any fun file => foldEqual path file.path) = true) : Removable files path := by
  refine ⟨Bool.eq_false_iff.2 hfree, fun file hfile hsame => hother ?_⟩
  exact any_eq_true.2 ⟨file, hfile, foldEqual_iff.2 hsame⟩

theorem checkDeletions_ok (h : checkDeletions files paths = .ok ()) : ∀ path ∈ paths, Removable files path := by
  induction paths with
  | nil => exact fun _ h => absurd h not_mem_nil
  | cons path rest ih =>
    unfold checkDeletions at h
    split at h
    · cases h
    · rename_i hfree
      split at h
      · cases h
      · rename_i hother
        exact forall_mem_cons.2 ⟨removable_of_not hfree hother, ih h⟩

theorem checkReplacements_ok {asset : ManifestAsset} (h : checkReplacements asset replacements = .ok ()) :
    ∀ replacement ∈ replacements, Removable asset.files replacement.path := by
  induction replacements with
  | nil => exact fun _ h => absurd h not_mem_nil
  | cons replacement rest ih =>
    unfold checkReplacements at h
    split at h
    · cases h
    · rename_i hfree
      split at h
      · cases h
      · rename_i hother
        have hhere := removable_of_not (fun hreserved => hfree (.inl hreserved)) hother
        exact forall_mem_cons.2 ⟨hhere, ih h⟩

/-- The manifest and the archive are what `Install` insists on before it changes anything. -/
structure Accepted (asset : ManifestAsset) : Prop where
  files : ∀ file ∈ asset.files, isReservedPath file.path = false
  identity : asset.files.countP isBuildIdentity = 1
  distinct : asset.files.Pairwise fun a b => fold a.path ≠ fold b.path
  removable : ∀ path ∈ removals asset, Removable asset.files path

theorem accepted_of_checks {asset : ManifestAsset} (h : checkAsset asset resetConfiguration = .ok total)
    (hdistinct : asset.files.Pairwise fun a b => fold a.path ≠ fold b.path) : Accepted asset := by
  unfold checkAsset at h
  split at h
  · cases h
  cases hfiles : checkFiles asset.files 0 0 with
  | error status =>
    rw [hfiles] at h
    cases h
  | ok counted =>
    obtain ⟨identities, bytes⟩ := counted
    rw [hfiles] at h
    change (if identities ≠ 1 then _ else _) = _ at h
    split at h
    · cases h
    cases hdeletions : checkDeletions asset.files asset.deletions with
    | error status =>
      rw [hdeletions] at h
      cases h
    | ok _ =>
      rw [hdeletions] at h
      cases hreplacements : checkReplacements asset asset.replacements with
      | error status =>
        rw [hreplacements] at h
        cases h
      | ok _ =>
        obtain ⟨hfree, hcount⟩ := checkFiles_ok hfiles
        refine ⟨hfree, ?_, hdistinct, fun path hpath => ?_⟩
        · dsimp only at hcount
          omega
        · rcases mem_append.1 hpath with hpath | hpath
          · exact checkDeletions_ok hdeletions path hpath
          · obtain ⟨replacement, hreplacement, rfl⟩ := mem_map.1 hpath
            exact checkReplacements_ok hreplacements replacement hreplacement

theorem checkFiles_error (h : checkFiles files identities total = .error status) : status ≠ .ok := by
  induction files generalizing identities total with
  | nil => cases h
  | cons file rest ih =>
    unfold checkFiles at h
    split at h
    · cases h
      decide
    · split at h
      · cases h
        decide
      · exact ih h

theorem checkDeletions_error (h : checkDeletions files paths = .error status) : status ≠ .ok := by
  induction paths with
  | nil => cases h
  | cons path rest ih =>
    unfold checkDeletions at h
    split_ifs at h
    · cases h
      decide
    · cases h
      decide
    · exact ih h

theorem checkReplacements_error {asset : ManifestAsset} (h : checkReplacements asset replacements = .error status) :
    status ≠ .ok := by
  induction replacements with
  | nil => cases h
  | cons replacement rest ih =>
    unfold checkReplacements at h
    split_ifs at h
    · cases h
      decide
    · cases h
      decide
    · exact ih h

theorem checkAsset_error {asset : ManifestAsset} (h : checkAsset asset resetConfiguration = .error status) :
    status ≠ .ok := by
  unfold checkAsset at h
  split at h
  · cases h
    decide
  cases hfiles : checkFiles asset.files 0 0 with
  | error failure =>
    rw [hfiles] at h
    obtain rfl := Except.error.inj h
    exact checkFiles_error hfiles
  | ok counted =>
    rw [hfiles] at h
    change (if counted.1 ≠ 1 then _ else _) = _ at h
    split at h
    · cases h
      decide
    cases hdeletions : checkDeletions asset.files asset.deletions with
    | error failure =>
      rw [hdeletions] at h
      obtain rfl := Except.error.inj h
      exact checkDeletions_error hdeletions
    | ok _ =>
      rw [hdeletions] at h
      cases hreplacements : checkReplacements asset asset.replacements with
      | error failure =>
        rw [hreplacements] at h
        obtain rfl := Except.error.inj h
        exact checkReplacements_error hreplacements
      | ok _ =>
        rw [hreplacements] at h
        cases h

/-! ### The plan of an accepted release -/

theorem not_temporary (h : isReservedPath path = false) : fold path ≠ fold simpleUpdateTemporaryPath := by
  intro hsame
  unfold isReservedPath at h
  rw [foldEqual_iff.2 hsame] at h
  simp at h

/-- Among paths that all differ, two members with one path are the same. -/
theorem fold_ne_of_mem {α : Type} {path : α → Bytes} {items : List α}
    (h : items.Pairwise fun a b => fold (path a) ≠ fold (path b)) {a b : α} (ha : a ∈ items)
    (hb : b ∈ items) (hne : a ≠ b) : fold (path a) ≠ fold (path b) := by
  have hsymm : Std.Symm fun a b : α => fold (path a) ≠ fold (path b) := ⟨fun _ _ hab => hab.symm⟩
  exact h.forall ha hb hne

theorem Accepted.apart {asset : ManifestAsset} (h : Accepted asset) {a b : ManifestFile}
    (ha : a ∈ asset.files) (hb : b ∈ asset.files) (hne : a ≠ b) : fold a.path ≠ fold b.path :=
  fold_ne_of_mem h.distinct ha hb hne

theorem mem_passSteps {asset : ManifestAsset} :
    step ∈ passSteps pass (workOf fs v resetConfiguration asset) ↔ ∃ file ∈ asset.files,
      installPass file = pass ∧ selectedAction fs v resetConfiguration file = .installFile ∧
        step = .place file := by
  simp only [passSteps, workOf, mem_map, mem_filter, Bool.and_eq_true, beq_iff_eq]
  constructor
  · rintro ⟨_, ⟨⟨file, hfile, rfl⟩, hpass, haction⟩, rfl⟩
    exact ⟨file, hfile, hpass, haction, rfl⟩
  · rintro ⟨file, hfile, hpass, haction, rfl⟩
    exact ⟨_, ⟨⟨file, hfile, rfl⟩, hpass, haction⟩, rfl⟩

theorem mem_planOf {asset : ManifestAsset} :
    step ∈ planOf asset (workOf fs v resetConfiguration asset) ↔
      (∃ file ∈ asset.files, selectedAction fs v resetConfiguration file = .installFile ∧
        step = .place file) ∨ ∃ path ∈ removals asset, step = .remove path := by
  have hpass : ∀ file, installPass file = 0 ∨ installPass file = 1 ∨ installPass file = 2 ∨
      installPass file = 3 := by
    intro file
    unfold installPass
    split_ifs
    all_goals simp
  simp only [planOf, mem_append, mem_passSteps, mem_map]
  constructor
  · rintro ((((⟨file, hfile, -, h⟩ | ⟨file, hfile, -, h⟩) | ⟨file, hfile, -, h⟩) |
      ⟨path, hpath, rfl⟩) | ⟨file, hfile, -, h⟩)
    · exact .inl ⟨file, hfile, h⟩
    · exact .inl ⟨file, hfile, h⟩
    · exact .inl ⟨file, hfile, h⟩
    · exact .inr ⟨path, hpath, rfl⟩
    · exact .inl ⟨file, hfile, h⟩
  · rintro (⟨file, hfile, h⟩ | ⟨path, hpath, rfl⟩)
    · rcases hpass file with hpass | hpass | hpass | hpass
      · exact .inl (.inl (.inl (.inl ⟨file, hfile, hpass, h⟩)))
      · exact .inl (.inl (.inl (.inr ⟨file, hfile, hpass, h⟩)))
      · exact .inl (.inl (.inr ⟨file, hfile, hpass, h⟩))
      · exact .inr ⟨file, hfile, hpass, h⟩
    · exact .inl (.inr ⟨path, hpath, rfl⟩)

theorem Accepted.passSteps_respect {asset : ManifestAsset} (h : Accepted asset)
    (fs : FatFsUpdateFileSystem) (v : Volume) (resetConfiguration : Bool) (pass : Nat) :
    (passSteps pass (workOf fs v resetConfiguration asset)).Pairwise
      fun earlier later => later.Respects earlier := by
  have hwork : (workOf fs v resetConfiguration asset).Pairwise
      fun a b => fold a.1.path ≠ fold b.1.path := pairwise_map.2 h.distinct
  refine pairwise_map.2 ((hwork.filter _).imp fun hab => .inl hab)

theorem Accepted.passes_respect {asset : ManifestAsset} (h : Accepted asset)
     {pass' : Nat}
    (hpass : pass ≠ pass') {earlier later : PlanStep}
    (hearlier : earlier ∈ passSteps pass (workOf fs v resetConfiguration asset))
    (hlater : later ∈ passSteps pass' (workOf fs v resetConfiguration asset)) : later.Respects earlier := by
  obtain ⟨a, ha, rfl, -, rfl⟩ := mem_passSteps.1 hearlier
  obtain ⟨b, hb, rfl, -, rfl⟩ := mem_passSteps.1 hlater
  refine .inl (h.apart ha hb ?_)
  rintro rfl
  exact hpass rfl

theorem Accepted.sound {asset : ManifestAsset} (h : Accepted asset) (fs : FatFsUpdateFileSystem)
    (v : Volume) (resetConfiguration : Bool) :
    Sound (planOf asset (workOf fs v resetConfiguration asset)) where
  respects := by
    have hremoves : ((removals asset).map PlanStep.remove).Pairwise
        fun earlier later => later.Respects earlier :=
      pairwise_map.2 (pairwise_of_forall fun path path' => .inr ⟨path, path', rfl, rfl⟩)
    have hafter : ∀ pass, ∀ earlier ∈ passSteps pass (workOf fs v resetConfiguration asset),
        ∀ later ∈ (removals asset).map PlanStep.remove, later.Respects earlier := by
      intro pass earlier hearlier later hlater
      obtain ⟨file, hfile, -, -, rfl⟩ := mem_passSteps.1 hearlier
      obtain ⟨path, hpath, rfl⟩ := mem_map.1 hlater
      exact .inl ((h.removable path hpath).2 file hfile).symm
    have hbefore : ∀ pass, ∀ earlier ∈ (removals asset).map PlanStep.remove,
        ∀ later ∈ passSteps pass (workOf fs v resetConfiguration asset),
          later.Respects earlier := by
      intro pass earlier hearlier later hlater
      obtain ⟨path, hpath, rfl⟩ := mem_map.1 hearlier
      obtain ⟨file, hfile, -, -, rfl⟩ := mem_passSteps.1 hlater
      exact .inl ((h.removable path hpath).2 file hfile)
    have hpasses := h.passSteps_respect fs v resetConfiguration
    have hlater : ∀ pass pass', pass ≠ pass' →
        ∀ earlier ∈ passSteps pass (workOf fs v resetConfiguration asset),
        ∀ later ∈ passSteps pass' (workOf fs v resetConfiguration asset),
          later.Respects earlier :=
      fun _ _ hpass _ hearlier _ hlater => h.passes_respect hpass hearlier hlater
    simp only [planOf, pairwise_append, forall_mem_append, hpasses, hremoves, true_and]
    refine ⟨⟨⟨?_, ?_⟩, ⟨hafter 0, hafter 1⟩, hafter 2⟩, ?_, hbefore 3⟩
    · exact hlater 0 1 (by decide)
    · exact ⟨hlater 0 2 (by decide), hlater 1 2 (by decide)⟩
    · exact ⟨⟨hlater 0 3 (by decide), hlater 1 3 (by decide)⟩, hlater 2 3 (by decide)⟩
  temporary step hstep := by
    rcases mem_planOf.1 hstep with ⟨file, hfile, -, rfl⟩ | ⟨path, hpath, rfl⟩
    · exact not_temporary (h.files file hfile)
    · exact not_temporary (h.removable path hpath).1

/-- The course of an installation of this release on this card. -/
def courseOf (fs : FatFsUpdateFileSystem) (before : Volume) (resetConfiguration : Bool)
    (asset : ManifestAsset) : Course where
  fs := fs
  directories := asset.directories
  before := before
  plan := planOf asset (workOf fs before resetConfiguration asset)
  accepted := Accepted asset
  sound h := h.sound fs before resetConfiguration

/-! ### The archive -/

/-- An opened archive whose files and directories are those of the manifest. -/
structure Bound (asset : ManifestAsset) (reader : ZipReader) : Prop where
  portable : Portable {} reader.inventory.entries
  same : Matches reader.inventory (buildExpectedInventory asset)

variable {asset : ManifestAsset} {reader : ZipReader}

variable {file : ManifestFile}

theorem Bound.found (h : Bound asset reader) (hfile : file ∈ asset.files) :
    ∃ entry, reader.inventory.findFile file.path = some entry ∧ entry.size = file.size := by
  obtain ⟨entry, hentry, hsize, -⟩ := h.same.files _ (mem_map_of_mem hfile)
  exact ⟨entry, hentry, hsize⟩

/-- The archive has no two files of one path, so the manifest has none either. -/
theorem Bound.distinct (h : Bound asset reader) : asset.files.Pairwise fun a b => fold a.path ≠ fold b.path := by
  have hpaths : asset.files.Pairwise fun a b => a.path ≠ b.path := by
    simpa [buildExpectedInventory, pairwise_map] using h.same.distinct
  refine hpaths.imp_of_mem fun {a b} ha hb hne => ?_
  obtain ⟨entry, hentry, -⟩ := h.found ha
  obtain ⟨entry', hentry', -⟩ := h.found hb
  obtain ⟨hmem, -, hpath⟩ := findFile_eq_some hentry
  obtain ⟨hmem', -, hpath'⟩ := findFile_eq_some hentry'
  rw [← hpath, ← hpath'] at hne ⊢
  refine fold_ne_of_mem h.portable.distinct hmem hmem' ?_
  rintro rfl
  exact hne rfl

theorem Bound.expected (h : Bound asset reader) (hfile : file ∈ asset.files) :
    ∃ wanted, findExpectedFile (buildExpectedInventory asset) file.path = some wanted ∧
      wanted.sha256 = some file.sha256 := by
  have hsome : (findExpectedFile (buildExpectedInventory asset) file.path).isSome = true := by
    unfold findExpectedFile
    rw [find?_isSome]
    exact ⟨_, mem_map_of_mem hfile, by simp⟩
  obtain ⟨wanted, hwanted⟩ := Option.isSome_iff_exists.1 hsome
  refine ⟨wanted, hwanted, ?_⟩
  obtain ⟨other, hother, rfl⟩ := mem_map.1 (mem_of_find?_eq_some hwanted)
  have hpath : other.path = file.path := by simpa using find?_some hwanted
  by_cases hsame : other = file
  · rw [hsame]
  · have hapart := fold_ne_of_mem h.distinct hother hfile hsame
    exact absurd (congrArg fold hpath) hapart

theorem Bound.of_same {reader' : ZipReader} (h : Bound asset reader) (hsame : reader.Same reader') :
    Bound asset reader' := by
  refine ⟨?_, ?_⟩
  · rw [hsame.inventory]
    exact h.portable
  · rw [hsame.inventory]
    exact h.same

end Bmx.Update
