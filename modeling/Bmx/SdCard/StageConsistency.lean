import Bmx.SdCard.StagePlanSpec

/-!
# Consistent stages

A plan is consistent if its files and directories, with all that is above them, make a tree on a FAT volume. What
is planned is checked for this, but what is above a directory is not: `DeclaredAgree` says what is left to ask for.
-/

namespace Bmx.SdCard

open Staging StagePlan List

/-- The directories of a plan, and all that is above them or above a file. -/
def StagePlan.allDirectories (plan : StagePlan) : List Text :=
  plan.directories ++ plan.directories.flatMap parents ++ plan.files.flatMap fun planned => parents planned.target

def PlannedFile.entry (planned : PlannedFile) : CardEntry := ⟨planned.target, some (planned.size, planned.sha256)⟩

def StagePlan.entries (plan : StagePlan) : List CardEntry :=
  (plan.allDirectories.map fun directory => ⟨directory, none⟩) ++ plan.files.map PlannedFile.entry

/-- Directories have one spelling, files are apart from them and from each other, and assembling makes just these. -/
structure StagePlan.Consistent (plan : StagePlan) (host : HostFiles) : Prop where
  spelled : ∀ first ∈ plan.allDirectories, ∀ second ∈ plan.allDirectories, lower first = lower second → first = second
  apart : ∀ planned ∈ plan.files, ∀ directory ∈ plan.allDirectories, lower planned.target ≠ lower directory
  distinct : plan.files.Pairwise PlannedFile.Apart
  assembled : ∀ volume, ∃ card, assembleStage volume host plan = .ok card ∧ ∀ entry, entry ∈ card ↔ entry ∈ plan.entries

section Assembling

variable {host : HostFiles} {volume : Volume} {card : List CardEntry} {directories : List Text}
  {files processed : List PlannedFile}

theorem Volume.lower_of_key {first second : Text} (h : volume.key first = volume.key second) : lower first = lower second := by
  cases volume with
  | exact => exact congrArg lower h
  | folding => exact h

/-- A card that holds nothing but some of the directories, and the files that have been copied. -/
def Holds (directories : List Text) (processed : List PlannedFile) (card : List CardEntry) : Prop :=
  ∀ entry ∈ card, (∃ directory ∈ directories, entry = ⟨directory, none⟩) ∨ ∃ planned ∈ processed, entry = planned.entry

theorem find_directory (hspelled : ∀ first ∈ directories, ∀ second ∈ directories, lower first = lower second → first = second)
    (hapart : ∀ planned ∈ processed, ∀ directory ∈ directories, lower planned.target ≠ lower directory)
    (hcard : Holds directories processed card) {directory : Text} (hdirectory : directory ∈ directories)
    {entry : CardEntry} (hfind : volume.find card directory = some entry) : entry = ⟨directory, none⟩ := by
  have hkey := Volume.lower_of_key (by simpa using find?_some hfind : volume.key entry.path = volume.key directory)
  rcases hcard entry (mem_of_find?_eq_some hfind) with ⟨other, hother, rfl⟩ | ⟨planned, hplanned, rfl⟩
  · rw [hspelled other hother directory hdirectory hkey]
  · exact absurd hkey (hapart planned hplanned directory hdirectory)

theorem makeDirectory_adds (volume : Volume)
    (hspelled : ∀ first ∈ directories, ∀ second ∈ directories, lower first = lower second → first = second)
    (hapart : ∀ planned ∈ processed, ∀ directory ∈ directories, lower planned.target ≠ lower directory)
    (hcard : Holds directories processed card) {directory : Text} (hdirectory : directory ∈ directories) :
    ∃ next, makeDirectory volume card directory = .ok next ∧
      ∀ entry, entry ∈ next ↔ entry ∈ card ∨ entry = ⟨directory, none⟩ := by
  unfold makeDirectory
  cases hfind : volume.find card directory with
  | none =>
    refine ⟨_, rfl, fun entry => ?_⟩
    rw [mem_append, mem_singleton]
  | some entry =>
    obtain rfl := find_directory hspelled hapart hcard hdirectory hfind
    refine ⟨card, rfl, fun entry => ?_⟩
    constructor
    · exact .inl
    · rintro (hentry | rfl)
      · exact hentry
      · exact mem_of_find?_eq_some hfind

theorem makeAll_adds (volume : Volume)
    (hspelled : ∀ first ∈ directories, ∀ second ∈ directories, lower first = lower second → first = second)
    (hapart : ∀ planned ∈ processed, ∀ directory ∈ directories, lower planned.target ≠ lower directory)
    {made : List Text} (hmade : ∀ directory ∈ made, directory ∈ directories) (hcard : Holds directories processed card) :
    ∃ next, made.foldlM (makeDirectory volume) card = .ok next ∧ Holds directories processed next ∧
      ∀ entry, entry ∈ next ↔ entry ∈ card ∨ ∃ directory ∈ made, entry = ⟨directory, none⟩ := by
  induction made generalizing card with
  | nil => exact ⟨card, rfl, hcard, by simp⟩
  | cons directory rest ih =>
    rw [forall_mem_cons] at hmade
    obtain ⟨middle, hmiddle, hadded⟩ := makeDirectory_adds volume hspelled hapart hcard hmade.1
    have hholds : Holds directories processed middle := by
      intro entry hentry
      rcases (hadded entry).1 hentry with hentry | rfl
      · exact hcard entry hentry
      · exact .inl ⟨directory, hmade.1, rfl⟩
    obtain ⟨next, hnext, hholdsNext, haddedNext⟩ := ih hmade.2 hholds
    refine ⟨next, foldlM_cons_eq_ok.2 ⟨middle, hmiddle, hnext⟩, hholdsNext, fun entry => ?_⟩
    rw [haddedNext, hadded, exists_mem_cons_iff, or_assoc]

theorem makeDirectories_adds (volume : Volume)
    (hspelled : ∀ first ∈ directories, ∀ second ∈ directories, lower first = lower second → first = second)
    {made : List Text} (hmade : ∀ directory ∈ made, directory ∈ directories ∧ ∀ above ∈ parents directory, above ∈ directories)
    (hcard : Holds directories [] card) :
    ∃ next, made.foldlM (makeDirectories volume) card = .ok next ∧ Holds directories [] next ∧
      ∀ entry, entry ∈ next ↔
        entry ∈ card ∨ ∃ directory ∈ made, ∃ path, (path = directory ∨ path ∈ parents directory) ∧ entry = ⟨path, none⟩ := by
  induction made generalizing card with
  | nil => exact ⟨card, rfl, hcard, by simp⟩
  | cons directory rest ih =>
    rw [forall_mem_cons] at hmade
    have hpaths : ∀ path ∈ (parents directory).reverse ++ [directory], path ∈ directories := by
      intro path hpath
      rcases mem_append.1 hpath with hpath | hpath
      · exact hmade.1.2 path (mem_reverse.1 hpath)
      · rw [mem_singleton.1 hpath]
        exact hmade.1.1
    obtain ⟨middle, hmiddle, hholds, hadded⟩ := makeAll_adds volume hspelled (by simp) hpaths hcard
    obtain ⟨next, hnext, hholdsNext, haddedNext⟩ := ih hmade.2 hholds
    refine ⟨next, foldlM_cons_eq_ok.2 ⟨middle, hmiddle, hnext⟩, hholdsNext, fun entry => ?_⟩
    rw [haddedNext, hadded, exists_mem_cons_iff, or_assoc]
    simp only [mem_append, mem_reverse, mem_singleton, or_comm]

theorem copyFile_adds (volume : Volume)
    (hspelled : ∀ first ∈ directories, ∀ second ∈ directories, lower first = lower second → first = second)
    (hapart : ∀ planned ∈ processed, ∀ directory ∈ directories, lower planned.target ≠ lower directory)
    (hcard : Holds directories processed card) {planned : PlannedFile}
    (hplanned : ∀ directory ∈ directories, lower planned.target ≠ lower directory)
    (hdistinct : ∀ previous ∈ processed, previous.Apart planned)
    (hparents : ∀ above ∈ parents planned.target, above ∈ directories)
    (hinfo : host.lstat planned.source = some (.file planned.size planned.sha256)) :
    ∃ next, copyFile volume host card planned = .ok next ∧ Holds directories (processed ++ [planned]) next ∧
      ∀ entry, entry ∈ next ↔
        entry ∈ card ∨ (∃ directory ∈ parents planned.target, entry = ⟨directory, none⟩) ∨ entry = planned.entry := by
  obtain ⟨middle, hmiddle, hholds, hadded⟩ := makeAll_adds volume hspelled hapart
    (fun above h => hparents above (mem_reverse.1 h)) hcard
  have hfind : volume.find middle planned.target = none := by
    rw [Volume.find, find?_eq_none]
    intro entry hentry hkey
    have hlower := Volume.lower_of_key (by simpa using hkey : volume.key entry.path = volume.key planned.target)
    rcases hholds entry hentry with ⟨directory, hdirectory, rfl⟩ | ⟨previous, hprevious, rfl⟩
    · exact hplanned directory hdirectory hlower.symm
    · exact hdistinct previous hprevious hlower
  have hread : regularFileInfo host planned.source = .ok (planned.size, planned.sha256) := regularFileInfo_eq_ok.2 hinfo
  have hcopied : copyFile volume host card planned = .ok (middle ++ [planned.entry]) := by
    unfold copyFile
    rw [hmiddle, hread]
    simp only [bind, Except.bind, ne_eq, not_true_eq_false, if_false, hfind]
    rfl
  refine ⟨_, hcopied, ?_, fun entry => ?_⟩
  · intro entry hentry
    rcases mem_append.1 hentry with hentry | hentry
    · rcases hholds entry hentry with hdirectory | ⟨previous, hprevious, rfl⟩
      · exact .inl hdirectory
      · exact .inr ⟨previous, mem_append_left _ hprevious, rfl⟩
    · exact .inr ⟨planned, mem_append_right _ (mem_singleton_self planned), mem_singleton.1 hentry⟩
  · rw [mem_append, hadded, mem_singleton, or_assoc]
    simp only [mem_reverse]

theorem copyFiles_adds (volume : Volume)
    (hspelled : ∀ first ∈ directories, ∀ second ∈ directories, lower first = lower second → first = second)
    (hapart : ∀ planned ∈ processed ++ files, ∀ directory ∈ directories, lower planned.target ≠ lower directory)
    (hdistinct : (processed ++ files).Pairwise PlannedFile.Apart)
    (hparents : ∀ planned ∈ files, ∀ above ∈ parents planned.target, above ∈ directories)
    (hinfo : ∀ planned ∈ files, host.lstat planned.source = some (.file planned.size planned.sha256))
    (hcard : Holds directories processed card) :
    ∃ next, files.foldlM (copyFile volume host) card = .ok next ∧
      ∀ entry, entry ∈ next ↔ entry ∈ card ∨ ∃ planned ∈ files,
        (∃ directory ∈ parents planned.target, entry = ⟨directory, none⟩) ∨ entry = planned.entry := by
  induction files generalizing processed card with
  | nil => exact ⟨card, rfl, by simp⟩
  | cons planned rest ih =>
    rw [forall_mem_cons] at hparents hinfo
    have hbefore : ∀ previous ∈ processed, previous.Apart planned := by
      intro previous hprevious
      exact (pairwise_append.1 hdistinct).2.2 previous hprevious planned mem_cons_self
    obtain ⟨middle, hmiddle, hholds, hadded⟩ := copyFile_adds volume hspelled
      (fun previous hprevious => hapart previous (mem_append_left _ hprevious)) hcard
      (hapart planned (mem_append_right _ mem_cons_self)) hbefore hparents.1 hinfo.1
    have hassoc : processed ++ [planned] ++ rest = processed ++ planned :: rest := by simp
    rw [← hassoc] at hapart hdistinct
    obtain ⟨next, hnext, haddedNext⟩ := ih hapart hdistinct hparents.2 hinfo.2 hholds
    refine ⟨next, foldlM_cons_eq_ok.2 ⟨middle, hmiddle, hnext⟩, fun entry => ?_⟩
    rw [haddedNext, hadded, exists_mem_cons_iff, or_assoc]

theorem assembleStage_adds (volume : Volume) {plan : StagePlan}
    (hspelled : ∀ first ∈ plan.allDirectories, ∀ second ∈ plan.allDirectories, lower first = lower second → first = second)
    (hapart : ∀ planned ∈ plan.files, ∀ directory ∈ plan.allDirectories, lower planned.target ≠ lower directory)
    (hdistinct : plan.files.Pairwise PlannedFile.Apart)
    (hinfo : ∀ planned ∈ plan.files, host.lstat planned.source = some (.file planned.size planned.sha256)) :
    ∃ card, assembleStage volume host plan = .ok card ∧ ∀ entry, entry ∈ card ↔ entry ∈ plan.entries := by
  have hdirectories : ∀ directory ∈ plan.directories,
      directory ∈ plan.allDirectories ∧ ∀ above ∈ parents directory, above ∈ plan.allDirectories := by
    unfold allDirectories
    grind
  have hparents : ∀ planned ∈ plan.files, ∀ above ∈ parents planned.target, above ∈ plan.allDirectories := by
    unfold allDirectories
    grind
  obtain ⟨middle, hmiddle, hholds, hadded⟩ := makeDirectories_adds volume hspelled hdirectories
    (by simp [Holds] : Holds plan.allDirectories [] [])
  have hnone : [] ++ plan.files = plan.files := nil_append plan.files
  obtain ⟨card, hcard, haddedFiles⟩ := copyFiles_adds volume hspelled (hnone ▸ hapart) (hnone ▸ hdistinct) hparents hinfo
    hholds
  refine ⟨card, bind_eq_ok.2 ⟨middle, hmiddle, hcard⟩, fun entry => ?_⟩
  simp only [entries, allDirectories, map_append, mem_append, mem_map, mem_flatMap]
  grind

end Assembling

/-- A rule declares a directory: its own target, the destination of a tree that is there, or a directory of that
tree that no pattern leaves out. -/
inductive Declares (host : HostFiles) (roots : Text → Text) (board : Board) (rule : LayoutRule) : Text → Prop
  | directory (hkind : rule.kind = .directory) : Declares host roots board rule (effectiveTarget rule board)
  | destination {reference : Text} (hkind : rule.kind = .tree) (hsource : rule.source = some reference)
      (htree : host.lstat (resolveSource reference roots) = some .directory) :
      Declares host roots board rule (effectiveTarget rule board)
  | member {reference relative : Text} (hkind : rule.kind = .tree) (hsource : rule.source = some reference)
      (htree : host.lstat (resolveSource reference roots) = some .directory)
      (hmember : relative ∈ host.rglob (resolveSource reference roots))
      (hinfo : host.lstat (join (resolveSource reference roots) relative) = some .directory)
      (hkept : rule.include.isEmpty && !rule.exclude.any fun item => matchesGlob relative item) :
      Declares host roots board rule (join (effectiveTarget rule board) relative)

/-- A directory that is declared, or above one that is, or above a file. -/
def Needed (host : HostFiles) (roots : Text → Text) (board : Board) (rules : List LayoutRule) (directory : Text) : Prop :=
  ∃ rule ∈ rules,
    (∃ declared, Declares host roots board rule declared ∧ (directory = declared ∨ directory ∈ parents declared)) ∨
      ∃ planned, Stages host roots board rule planned ∧ directory ∈ parents planned.target

/-- What is above a declared directory is no file, and is spelled like each needed directory of its name. -/
def DeclaredAgree (host : HostFiles) (roots : Text → Text) (board : Board) (rules : List LayoutRule) : Prop :=
  ∀ rule ∈ rules, ∀ declared, Declares host roots board rule declared → ∀ above ∈ parents declared,
    (∀ other ∈ rules, ∀ planned, Stages host roots board other planned → lower planned.target ≠ lower above) ∧
      ∀ needed, Needed host roots board rules needed → lower needed = lower above → needed = above

section

variable {host : HostFiles} {roots : Text → Text} {board : Board} {rule : LayoutRule} {directory : Text}

theorem mem_directories_memberContribution {reference source relative : Text} :
    directory ∈ (memberContribution host board rule reference source relative).directories ↔
      (host.lstat (join source relative) = some .directory ∧
          (rule.include.isEmpty && !rule.exclude.any fun item => matchesGlob relative item) ∧
          directory = join (effectiveTarget rule board) relative) ∨
        ∃ planned ∈ (memberContribution host board rule reference source relative).files,
          directory ∈ parents planned.target := by
  unfold memberContribution
  cases hinfo : host.lstat (join source relative) with
  | none => simp
  | some info =>
    cases info with
    | link => simp
    | special => simp
    | directory =>
      dsimp only
      split_ifs with hkept
      · simp [hkept]
      · simp [hkept]
    | file size sha256 =>
      dsimp only
      split_ifs with hselected
      · simp [memberFile]
      · simp

theorem mem_directories_treeContribution {reference : Text} :
    directory ∈ (treeContribution host roots board rule reference).directories ↔
      (host.lstat (resolveSource reference roots) = some .directory ∧
          (directory = effectiveTarget rule board ∨
            ∃ relative ∈ host.rglob (resolveSource reference roots),
              host.lstat (join (resolveSource reference roots) relative) = some .directory ∧
                (rule.include.isEmpty && !rule.exclude.any fun item => matchesGlob relative item) ∧
                directory = join (effectiveTarget rule board) relative)) ∨
        ∃ planned ∈ (treeContribution host roots board rule reference).files, directory ∈ parents planned.target := by
  unfold treeContribution
  dsimp only
  cases hinfo : host.lstat (resolveSource reference roots) with
  | none => simp
  | some info =>
    cases info with
    | file size sha256 => simp
    | link => simp
    | special => simp
    | directory =>
      simp only [directories_append, files_append, files_total, nil_append, mem_append, mem_directories_total,
        mem_insertionSort, mem_directories_memberContribution, mem_singleton, mem_flatMap, true_and]
      grind

/-- The directories that a rule contributes are those that it declares, and what is above its members. -/
theorem mem_directories_ruleContribution :
    directory ∈ (ruleContribution host roots board rule).directories →
      Declares host roots board rule directory ∨
        ∃ planned, Stages host roots board rule planned ∧ directory ∈ parents planned.target := by
  intro hmem
  have hstages : ∀ planned ∈ (ruleContribution host roots board rule).files, Stages host roots board rule planned :=
    fun planned => mem_ruleContribution.1
  unfold ruleContribution at hmem hstages
  cases hkind : rule.kind with
  | directory =>
    simp only [hkind, mem_singleton] at hmem
    rw [hmem]
    exact .inl (.directory hkind)
  | file =>
    cases hsource : rule.source with
    | none => simp [hkind, hsource] at hmem
    | some reference =>
      simp only [hkind, hsource, fileContribution] at hmem
      split at hmem <;> cases hmem
  | tree =>
    cases hsource : rule.source with
    | none => simp [hkind, hsource] at hmem
    | some reference =>
      simp only [hkind, hsource] at hmem hstages
      rcases mem_directories_treeContribution.1 hmem with ⟨htree, rfl | hmember⟩ | ⟨planned, hplanned, habove⟩
      · exact .inl (.destination hkind hsource htree)
      · obtain ⟨relative, hmember, hinfo, hkept, rfl⟩ := hmember
        exact .inl (.member hkind hsource htree hmember hinfo hkept)
      · exact .inr ⟨planned, hstages planned hplanned, habove⟩

theorem Declares.contributed (h : Declares host roots board rule directory) :
    directory ∈ (ruleContribution host roots board rule).directories := by
  unfold ruleContribution
  cases h with
  | directory hkind => simp [hkind]
  | destination hkind hsource htree =>
    simp only [hkind, hsource]
    exact mem_directories_treeContribution.2 (.inl ⟨htree, .inl rfl⟩)
  | member hkind hsource htree hmember hinfo hkept =>
    simp only [hkind, hsource]
    exact mem_directories_treeContribution.2 (.inl ⟨htree, .inr ⟨_, hmember, hinfo, hkept, rfl⟩⟩)

variable {layout : SdLayout} {profile : Profile} {features : List Text} {plan : StagePlan}

theorem mem_withParents_stagingOf :
    directory ∈ (stagingOf layout board host roots profile features).withParents ↔
      ∃ rule ∈ selectedRules layout board profile features, Declares host roots board rule directory ∨
        ∃ planned, Stages host roots board rule planned ∧ directory ∈ parents planned.target := by
  rw [mem_withParents]
  unfold stagingOf
  rw [mem_directories_total]
  constructor
  · rintro (⟨rule, hrule, hmem⟩ | ⟨planned, hplanned, habove⟩)
    · exact ⟨rule, hrule, mem_directories_ruleContribution hmem⟩
    · obtain ⟨rule, hrule, hstages⟩ := mem_stagingOf.1 hplanned
      exact ⟨rule, hrule, .inr ⟨planned, hstages, habove⟩⟩
  · rintro ⟨rule, hrule, hdeclares | ⟨planned, hstages, habove⟩⟩
    · exact .inl ⟨rule, hrule, hdeclares.contributed⟩
    · exact .inr ⟨planned, mem_stagingOf.2 ⟨rule, hrule, hstages⟩, habove⟩

theorem mem_allDirectories (hplan : planStage layout board host roots profile features = .ok plan) :
    directory ∈ plan.allDirectories ↔ Needed host roots board (selectedRules layout board profile features) directory := by
  obtain ⟨-, -, -, rfl⟩ := planStage_eq_ok.1 hplan
  unfold allDirectories plan Needed
  simp only [mem_append, mem_flatMap, mem_sortedSet, mem_withParents_stagingOf, mem_insertionSort, mem_stagingOf]
  constructor
  · rintro ((⟨rule, hrule, hdeclares | hstages⟩ | ⟨path, ⟨rule, hrule, hdeclares | ⟨planned, hstages, hpath⟩⟩, habove⟩) |
      ⟨planned, ⟨rule, hrule, hstages⟩, habove⟩)
    · exact ⟨rule, hrule, .inl ⟨directory, hdeclares, .inl rfl⟩⟩
    · exact ⟨rule, hrule, .inr hstages⟩
    · exact ⟨rule, hrule, .inl ⟨path, hdeclares, .inr habove⟩⟩
    · exact ⟨rule, hrule, .inr ⟨planned, hstages, mem_parents_trans hpath habove⟩⟩
    · exact ⟨rule, hrule, .inr ⟨planned, hstages, habove⟩⟩
  · rintro ⟨rule, hrule, ⟨declared, hdeclares, rfl | habove⟩ | ⟨planned, hstages, habove⟩⟩
    · exact .inl (.inl ⟨rule, hrule, .inl hdeclares⟩)
    · exact .inl (.inr ⟨declared, ⟨rule, hrule, .inl hdeclares⟩, habove⟩)
    · exact .inr ⟨planned, ⟨rule, hrule, hstages⟩, habove⟩

theorem mem_files_iff (hplan : planStage layout board host roots profile features = .ok plan) {planned : PlannedFile} :
    planned ∈ plan.files ↔ ∃ rule ∈ selectedRules layout board profile features, Stages host roots board rule planned := by
  obtain ⟨-, -, -, rfl⟩ := planStage_eq_ok.1 hplan
  rw [plan, mem_insertionSort, mem_stagingOf]

theorem Stages.info {planned : PlannedFile} (h : Stages host roots board rule planned) :
    host.lstat planned.source = some (.file planned.size planned.sha256) := by
  cases h with
  | file hkind hsource hinfo => exact hinfo
  | member hkind hsource htree hmember hinfo hselected => exact hinfo

/-- A plan is consistent exactly where what is above its declared directories agrees with the rest. -/
theorem consistent_iff_declaredAgree (hplan : planStage layout board host roots profile features = .ok plan) :
    plan.Consistent host ↔ DeclaredAgree host roots board (selectedRules layout board profile features) := by
  constructor
  · rintro ⟨hspelled, hapart, -, -⟩ rule hrule declared hdeclares above habove
    have hin : above ∈ plan.allDirectories :=
      (mem_allDirectories hplan).2 ⟨rule, hrule, .inl ⟨declared, hdeclares, .inr habove⟩⟩
    constructor
    · intro other hother planned hstages
      exact hapart planned ((mem_files_iff hplan).2 ⟨other, hother, hstages⟩) above hin
    · intro needed hneeded heq
      exact hspelled needed ((mem_allDirectories hplan).2 hneeded) above hin heq
  · intro hagree
    have hsound := (planStage_eq_ok.1 hplan).2.2.1
    -- A needed directory is one of the plan's, which are checked, or it is above a declared one.
    have hcases : ∀ directory ∈ plan.allDirectories,
        directory ∈ (stagingOf layout board host roots profile features).withParents ∨
          ∃ rule ∈ selectedRules layout board profile features, ∃ declared, Declares host roots board rule declared ∧
            directory ∈ parents declared := by
      intro directory hdirectory
      rw [mem_withParents_stagingOf]
      obtain ⟨rule, hrule, ⟨declared, hdeclares, rfl | habove⟩ | hstages⟩ := (mem_allDirectories hplan).1 hdirectory
      · exact .inl ⟨rule, hrule, .inl hdeclares⟩
      · exact .inr ⟨rule, hrule, declared, hdeclares, habove⟩
      · exact .inl ⟨rule, hrule, .inr hstages⟩
    have hspelled : ∀ first ∈ plan.allDirectories, ∀ second ∈ plan.allDirectories,
        lower first = lower second → first = second := by
      intro first hfirst second hsecond heq
      rcases hcases second hsecond with hchecked | ⟨rule, hrule, declared, hdeclares, habove⟩
      · rcases hcases first hfirst with hother | ⟨rule, hrule, declared, hdeclares, habove⟩
        · exact hsound.spelled first hother second hchecked heq
        · exact ((hagree rule hrule declared hdeclares first habove).2 second ((mem_allDirectories hplan).1 hsecond)
            heq.symm).symm
      · exact (hagree rule hrule declared hdeclares second habove).2 first ((mem_allDirectories hplan).1 hfirst) heq
    have hapart : ∀ planned ∈ plan.files, ∀ directory ∈ plan.allDirectories, lower planned.target ≠ lower directory := by
      intro planned hplanned directory hdirectory
      obtain ⟨other, hother, hstages⟩ := (mem_files_iff hplan).1 hplanned
      rcases hcases directory hdirectory with hchecked | ⟨rule, hrule, declared, hdeclares, habove⟩
      · exact hsound.apart directory hchecked planned (mem_stagingOf.2 ⟨other, hother, hstages⟩)
      · exact (hagree rule hrule declared hdeclares directory habove).1 other hother planned hstages
    have hdistinct : plan.files.Pairwise PlannedFile.Apart := by
      obtain ⟨-, -, -, rfl⟩ := planStage_eq_ok.1 hplan
      exact ((perm_insertionSort _ _).pairwise_iff PlannedFile.Apart.symm).2 hsound.files
    have hinfo : ∀ planned ∈ plan.files, host.lstat planned.source = some (.file planned.size planned.sha256) := by
      intro planned hplanned
      obtain ⟨rule, -, hstages⟩ := (mem_files_iff hplan).1 hplanned
      exact hstages.info
    exact ⟨hspelled, hapart, hdistinct, fun volume => assembleStage_adds volume hspelled hapart hdistinct hinfo⟩

end

def folderRule : LayoutRule where
  scope := .both
  kind := .directory
  ordinal := 0
  target := textOf "games/demo/music"
  mode := .keep

/-- A tree, and a directory below what may be a member of it. -/
def blockedLayout : SdLayout := layoutOf [gamesRule "first/games" 0, folderRule]

/-- The member is a file. -/
def blockedHost : HostFiles := .listed [
  (textOf "/first/games", .directory), (textOf "/first/games/demo", .file 16 [])]

def blockedPlan : StagePlan where
  board := .pi4
  profile := .release
  features := []
  files := [⟨textOf "games/demo", textOf "/first/games/demo", textOf "first/games/demo", .keep, 16, [], ⟨.both, .tree, 0⟩⟩]
  directories := [textOf "games", textOf "games/demo/music"]
  missingOptionalTargets := []

theorem assembleStage_blocked (volume : Volume) : assembleStage volume blockedHost blockedPlan =
    .error (.failed "exists as a directory" [textOf "games/demo", textOf "games/demo"]) := by
  cases volume <;> rfl

theorem blockedPlan_inconsistent : ¬blockedPlan.Consistent blockedHost := by
  intro hconsistent
  obtain ⟨card, hcard, -⟩ := hconsistent.assembled .exact
  rw [assembleStage_blocked] at hcard
  cases hcard

theorem consistent_iff_declaredAgree_blocked :
    ¬blockedPlan.Consistent blockedHost ∧
      ¬DeclaredAgree blockedHost rootsOf .pi4 (selectedRules blockedLayout .pi4 .release []) := by
  have hiff : blockedPlan.Consistent blockedHost ↔
      DeclaredAgree blockedHost rootsOf .pi4 (selectedRules blockedLayout .pi4 .release []) :=
    consistent_iff_declaredAgree rfl
  exact ⟨blockedPlan_inconsistent, fun hagree => blockedPlan_inconsistent (hiff.2 hagree)⟩

set_option maxRecDepth 4000 in
/-- The plan has a file and a directory below it, and is never assembled. -/
theorem file_above_directory_planned :
    loadSdLayout (documentOf [] [gamesEntry "first/games"] [entryOf (textOf "games/demo/music") (textOf "keep") []]) =
        .ok blockedLayout ∧
      planStage blockedLayout .pi4 blockedHost rootsOf .release [] = .ok blockedPlan ∧
      (∀ volume, assembleStage volume blockedHost blockedPlan =
        .error (.failed "exists as a directory" [textOf "games/demo", textOf "games/demo"])) ∧
      ¬blockedPlan.Consistent blockedHost :=
  ⟨by rfl, by rfl, assembleStage_blocked, blockedPlan_inconsistent⟩

end Bmx.SdCard
