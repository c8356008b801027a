import Bmx.SdCard.StagePlan
import Mathlib.Data.List.Pairwise

/-!
# What a plan holds

A plan is the sum of what each selected rule contributes. It is refused if a contribution is, or if two files or
two directories of the sum have the same name on a FAT volume.
-/

namespace Bmx.SdCard

open List hiding append_assoc append nil_append append_nil

open Staging

namespace Staging

/-- What is planned, and then more. -/
def append (staging added : Staging) : Staging where
  files := staging.files ++ added.files
  directories := added.directories ++ staging.directories
  missingOptional := added.missingOptional ++ staging.missingOptional

theorem append_assoc (first second third : Staging) :
    (first.append second).append third = first.append (second.append third) := by
  simp [append]

@[simp] theorem append_empty (staging : Staging) : staging.append {} = staging := by
  simp [append]

@[simp] theorem empty_append (staging : Staging) : append {} staging = staging := by
  simp [append]

@[simp] theorem files_append (staging added : Staging) : (staging.append added).files = staging.files ++ added.files := rfl

@[simp] theorem directories_append (staging added : Staging) :
    (staging.append added).directories = added.directories ++ staging.directories := rfl

end Staging

/-- Two files that a FAT volume tells apart. -/
def PlannedFile.Apart (first second : PlannedFile) : Prop := lower first.target ≠ lower second.target

theorem PlannedFile.Apart.symm {first second : PlannedFile} (h : first.Apart second) : second.Apart first := Ne.symm h

namespace Staging

/-- The added files are apart from each other, and from those before. -/
def Fits (staging added : Staging) : Prop :=
  added.files.Pairwise PlannedFile.Apart ∧ ∀ first ∈ staging.files, ∀ second ∈ added.files, first.Apart second

theorem fits_empty (staging : Staging) : staging.Fits {} := by
  constructor
  · exact List.Pairwise.nil
  · intro first _ second hsecond
    cases hsecond

theorem fits_append {staging first second : Staging} :
    staging.Fits (first.append second) ↔ staging.Fits first ∧ (staging.append first).Fits second := by
  unfold Fits
  rw [files_append, files_append, pairwise_append]
  grind

def total {α : Type} (contribution : α → Staging) (items : List α) : Staging :=
  items.foldr (fun item rest => (contribution item).append rest) {}

section

variable {α : Type} {contribution : α → Staging}

@[simp] theorem total_nil : total contribution [] = {} := rfl

@[simp] theorem total_cons {item : α} {rest : List α} :
    total contribution (item :: rest) = (contribution item).append (total contribution rest) := rfl

theorem files_total (items : List α) : (total contribution items).files = items.flatMap fun item => (contribution item).files := by
  induction items with
  | nil => rfl
  | cons item rest ih => rw [total_cons, files_append, ih, flatMap_cons]

variable {items : List α}

theorem mem_directories_total {directory : Text} :
    directory ∈ (total contribution items).directories ↔ ∃ item ∈ items, directory ∈ (contribution item).directories := by
  induction items with
  | nil => simp
  | cons item rest ih =>
    rw [total_cons, directories_append, mem_append, ih, exists_mem_cons_iff]
    exact or_comm

theorem foldlM_total {step : Staging → α → Except SdLayoutError Staging} {Allowed : α → Prop}
    (hstep : ∀ staging item next, step staging item = .ok next ↔
      Allowed item ∧ staging.Fits (contribution item) ∧ next = staging.append (contribution item))
    {staging result : Staging} :
    items.foldlM step staging = .ok result ↔
      (∀ item ∈ items, Allowed item) ∧ staging.Fits (total contribution items) ∧
        result = staging.append (total contribution items) := by
  induction items generalizing staging with
  | nil => simp [fits_empty, pure_eq_ok]
  | cons item rest ih =>
    rw [foldlM_cons_eq_ok, forall_mem_cons, total_cons, fits_append, ← append_assoc]
    constructor
    · rintro ⟨next, hnext, hrest⟩
      obtain ⟨hallowed, hfits, rfl⟩ := (hstep staging item next).1 hnext
      obtain ⟨hall, hfitsRest, hresult⟩ := ih.1 hrest
      exact ⟨⟨hallowed, hall⟩, ⟨hfits, hfitsRest⟩, hresult⟩
    · rintro ⟨⟨hallowed, hall⟩, ⟨hfits, hfitsRest⟩, hresult⟩
      exact ⟨staging.append (contribution item), (hstep staging item _).2 ⟨hallowed, hfits, rfl⟩,
        ih.2 ⟨hall, hfitsRest, hresult⟩⟩

end

end Staging

variable {files : List PlannedFile} {planned : PlannedFile} {directories result checked features : List Text}
  {layout : SdLayout} {board : Board} {profile : Profile} {host : HostFiles} {roots : Text → Text}

theorem find?_lower_eq_none :
    files.find? (fun previous => lower previous.target = lower planned.target) = none ↔
      ∀ previous ∈ files, previous.Apart planned := by
  simp [find?_eq_none, PlannedFile.Apart]

theorem addTarget_eq_ok {result : List PlannedFile} :
    addTarget files planned = .ok result ↔ (∀ previous ∈ files, previous.Apart planned) ∧ result = files ++ [planned] := by
  unfold addTarget
  cases hfind : files.find? fun previous => lower previous.target = lower planned.target with
  | none => simpa [eq_comm (a := result)] using fun _ => find?_lower_eq_none.1 hfind
  | some previous =>
    have hmet : ¬∀ previous ∈ files, previous.Apart planned := by
      rw [← find?_lower_eq_none, hfind]
      exact Option.some_ne_none previous
    simp [hmet]

section Contributions

variable (host : HostFiles) (roots : Text → Text) (board : Board)

def memberFile (rule : LayoutRule) (reference source relative : Text) (size : Nat) (sha256 : Text) : PlannedFile :=
  ⟨join (effectiveTarget rule board) relative, join source relative, join reference relative, rule.mode, size, sha256,
    rule.provenance⟩

/-- What a member of a tree contributes: a file with its parents, or a directory. -/
def memberContribution (rule : LayoutRule) (reference source relative : Text) : Staging :=
  match host.lstat (join source relative) with
  | some .directory =>
    if rule.include.isEmpty && !rule.exclude.any fun item => matchesGlob relative item then
      { directories := [join (effectiveTarget rule board) relative] }
    else {}
  | some (.file size sha256) =>
    if selectedByTree rule relative (some board) false then
      { files := [memberFile board rule reference source relative size sha256]
        directories := parents (join (effectiveTarget rule board) relative) }
    else {}
  | _ => {}

/-- A member of a tree is a directory, or a file that goes onto the card under a safe name, if it is selected. -/
def MemberAllowed (rule : LayoutRule) (source relative : Text) : Prop :=
  match host.lstat (join source relative) with
  | some .directory => True
  | some (.file _ _) =>
    selectedByTree rule relative (some board) false → FatSafe (join (effectiveTarget rule board) relative)
  | _ => False

def fileContribution (rule : LayoutRule) (reference : Text) : Staging :=
  let source := resolveSource reference roots
  match host.lstat source with
  | some (.file size sha256) =>
    { files := [⟨effectiveTarget rule board, source, reference, rule.mode, size, sha256, rule.provenance⟩] }
  | some _ => {}
  | none => { missingOptional := [effectiveTarget rule board] }

def FileAllowed (rule : LayoutRule) (reference : Text) : Prop :=
  match host.lstat (resolveSource reference roots) with
  | some (.file _ _) => True
  | some _ => False
  | none => rule.optional

/-- What the source of a tree rule contributes: its target, and its members in their order. -/
def treeContribution (rule : LayoutRule) (reference : Text) : Staging :=
  let source := resolveSource reference roots
  match host.lstat source with
  | some .directory =>
    append { directories := [effectiveTarget rule board] }
      (total (memberContribution host board rule reference source)
        ((host.rglob source).insertionSort (· ≤ ·)))
  | some _ => {}
  | none => { missingOptional := [effectiveTarget rule board] }

def TreeAllowed (rule : LayoutRule) (reference : Text) : Prop :=
  let source := resolveSource reference roots
  match host.lstat source with
  | some .directory => ∀ relative ∈ host.rglob source, MemberAllowed host board rule source relative
  | some _ => False
  | none => rule.optional

def ruleContribution (rule : LayoutRule) : Staging :=
  match rule.kind, rule.source with
  | .directory, _ => { directories := [effectiveTarget rule board] }
  | _, none => {}
  | .file, some reference => fileContribution host roots board rule reference
  | .tree, some reference => treeContribution host roots board rule reference

def RuleAllowed (rule : LayoutRule) : Prop :=
  match rule.kind, rule.source with
  | .directory, _ => True
  | _, none => True
  | .file, some reference => FileAllowed host roots rule reference
  | .tree, some reference => TreeAllowed host roots board rule reference

end Contributions

section

variable {host : HostFiles} {roots : Text → Text} {board : Board} {rule : LayoutRule} {staging next : Staging}

variable {added : Staging} {reference : Text}

theorem fits_one {planned : PlannedFile} (h : added.files = [planned]) :
    staging.Fits added ↔ ∀ previous ∈ staging.files, previous.Apart planned := by
  simp [Staging.Fits, h]

theorem fits_none (h : added.files = []) : staging.Fits added := by
  simp [Staging.Fits, h]

theorem stageMember_eq_ok (reference source : Text) (staging : Staging) (relative : Text) (next : Staging) :
    stageMember host board rule reference source staging relative = .ok next ↔
      MemberAllowed host board rule source relative ∧
        staging.Fits (memberContribution host board rule reference source relative) ∧
        next = staging.append (memberContribution host board rule reference source relative) := by
  unfold stageMember MemberAllowed memberContribution
  cases host.lstat (join source relative) with
  | none => simp
  | some info =>
    cases info with
    | link | special => simp
    | directory =>
      simp only [true_and]
      split_ifs with hkept
      · simp [fits_none, append, eq_comm (a := next)]
      · simp [fits_none, eq_comm (a := next)]
    | file size sha256 =>
      by_cases hselected : selectedByTree rule relative (some board) false = true
      · simp only [if_pos hselected, bind_eq_ok, fatPath_eq_ok, addTarget_eq_ok, pure_eq_ok, memberFile]
        rw [fits_one rfl]
        constructor
        · rintro ⟨target, ⟨hsafe, rfl⟩, files, ⟨happart, rfl⟩, rfl⟩
          exact ⟨fun _ => hsafe, happart, by simp [append]⟩
        · rintro ⟨hsafe, happart, rfl⟩
          exact ⟨_, ⟨hsafe hselected, rfl⟩, _, ⟨happart, rfl⟩, by simp [append]⟩
      · simp [hselected, fits_empty, eq_comm (a := next)]

theorem regularFileInfo_eq_ok {path : Text} {info : Nat × Text} :
    regularFileInfo host path = .ok info ↔ host.lstat path = some (.file info.1 info.2) := by
  unfold regularFileInfo
  cases host.lstat path with
  | none => simp
  | some found => cases found <;> simp [Prod.ext_iff]

theorem stageFile_eq_ok :
    stageFile host roots board staging rule reference = .ok next ↔
      FileAllowed host roots rule reference ∧ staging.Fits (fileContribution host roots board rule reference) ∧
        next = staging.append (fileContribution host roots board rule reference) := by
  unfold stageFile FileAllowed fileContribution
  dsimp only
  cases hinfo : host.lstat (resolveSource reference roots) with
  | none =>
    by_cases hoptional : rule.optional = true
    · simp [hoptional, fits_none, append, eq_comm (a := next)]
    · simp [hoptional]
  | some info =>
    cases info with
    | file size sha256 =>
      simp only [reduceCtorEq, if_false, bind_eq_ok, regularFileInfo_eq_ok, hinfo, addTarget_eq_ok, pure_eq_ok, true_and]
      rw [fits_one rfl]
      constructor
      · rintro ⟨info, hfound, files, ⟨happart, rfl⟩, rfl⟩
        cases hfound
        exact ⟨happart, by simp [append]⟩
      · rintro ⟨happart, rfl⟩
        exact ⟨(size, sha256), rfl, _, ⟨happart, rfl⟩, by simp [append]⟩
    | directory | link | special => simp [bind_eq_ok, regularFileInfo_eq_ok, hinfo]

theorem stageTree_eq_ok :
    stageTree host roots board staging rule reference = .ok next ↔
      TreeAllowed host roots board rule reference ∧ staging.Fits (treeContribution host roots board rule reference) ∧
        next = staging.append (treeContribution host roots board rule reference) := by
  unfold stageTree TreeAllowed treeContribution
  dsimp only
  cases hinfo : host.lstat (resolveSource reference roots) with
  | none =>
    by_cases hoptional : rule.optional = true
    · simp [hoptional, fits_none, append, eq_comm (a := next)]
    · simp [hoptional]
  | some info =>
    cases info with
    | directory =>
      rw [foldlM_total (stageMember_eq_ok reference (resolveSource reference roots)), fits_append, ← append_assoc]
      simp only [mem_insertionSort, and_congr_right_iff]
      simp [fits_none, append]
    | file | link | special => simp

theorem stageRule_eq_ok (staging : Staging) (rule : LayoutRule) (next : Staging) :
    stageRule host roots board staging rule = .ok next ↔
      RuleAllowed host roots board rule ∧ staging.Fits (ruleContribution host roots board rule) ∧
        next = staging.append (ruleContribution host roots board rule) := by
  unfold stageRule RuleAllowed ruleContribution
  cases hkind : rule.kind with
  | directory => simp [fits_none, append, eq_comm (a := next)]
  | file =>
    cases hsource : rule.source with
    | none => simp [fits_empty, eq_comm (a := next)]
    | some reference => exact stageFile_eq_ok
  | tree =>
    cases hsource : rule.source with
    | none => simp [fits_empty, eq_comm (a := next)]
    | some reference => exact stageTree_eq_ok

end

namespace Staging

/-- The directories, and the parents of the files. -/
def withParents (staging : Staging) : List Text :=
  staging.files.foldl (fun directories planned => parents planned.target ++ directories) staging.directories

variable {directories : List Text} {directory : Text}

theorem mem_foldl_parents {files : List PlannedFile} :
    directory ∈ files.foldl (fun directories planned => parents planned.target ++ directories) directories ↔
      directory ∈ directories ∨ ∃ planned ∈ files, directory ∈ parents planned.target := by
  induction files generalizing directories with
  | nil => simp
  | cons planned rest ih =>
    rw [foldl_cons, ih, mem_append, exists_mem_cons_iff]
    tauto

theorem mem_foldl_parents_of_mem (files : List PlannedFile) (h : directory ∈ directories) :
    directory ∈ files.foldl (fun directories planned => parents planned.target ++ directories) directories :=
  mem_foldl_parents.2 (.inl h)

theorem mem_withParents {staging : Staging} :
    directory ∈ staging.withParents ↔
      directory ∈ staging.directories ∨ ∃ planned ∈ staging.files, directory ∈ parents planned.target :=
  mem_foldl_parents

/-- No two names are the same on a FAT volume, and the directories have safe names. -/
structure Sound (staging : Staging) : Prop where
  files : staging.files.Pairwise PlannedFile.Apart
  safe : ∀ directory ∈ staging.withParents, FatSafe directory
  spelled : ∀ first ∈ staging.withParents, ∀ second ∈ staging.withParents, lower first = lower second → first = second
  apart : ∀ directory ∈ staging.withParents, ∀ planned ∈ staging.files, lower planned.target ≠ lower directory

end Staging

theorem addParents_eq_ok :
    addParents directories planned = .ok result ↔
      lower planned.target ∉ (parents planned.target ++ directories).map lower ∧
        result = parents planned.target ++ directories := by
  unfold addParents
  dsimp only
  split_ifs with hmet
  · simp only [hmet, not_true_eq_false, false_and]
  · simp only [ok_eq_ok, hmet, not_false_eq_true, true_and]

theorem foldlM_addParents_of_ok (h : files.foldlM addParents directories = .ok result) :
    result = files.foldl (fun directories planned => parents planned.target ++ directories) directories := by
  induction files generalizing directories with
  | nil => exact pure_eq_ok.1 h
  | cons planned rest ih =>
    obtain ⟨next, hnext, hrest⟩ := foldlM_cons_eq_ok.1 h
    obtain ⟨-, rfl⟩ := addParents_eq_ok.1 hnext
    exact ih hrest

theorem foldlM_addParents_ok
    (h : ∀ directory ∈ files.foldl (fun directories planned => parents planned.target ++ directories) directories,
      ∀ planned ∈ files, lower planned.target ≠ lower directory) :
    files.foldlM addParents directories =
      .ok (files.foldl (fun directories planned => parents planned.target ++ directories) directories) := by
  induction files generalizing directories with
  | nil => rfl
  | cons planned rest ih =>
    rw [foldlM_cons_eq_ok]
    refine ⟨parents planned.target ++ directories, addParents_eq_ok.2 ⟨?_, rfl⟩, ?_⟩
    · intro hmem
      obtain ⟨directory, hdirectory, hlower⟩ := mem_map.1 hmem
      have hin := mem_foldl_parents_of_mem rest hdirectory
      exact h directory hin planned mem_cons_self hlower.symm
    · exact ih fun directory hdirectory other hother => h directory hdirectory other (mem_cons_of_mem planned hother)

theorem checkDirectory_eq_ok {directory : Text} :
    checkDirectory files checked directory = .ok result ↔
      FatSafe directory ∧ (∀ previous ∈ checked, lower previous = lower directory → previous = directory) ∧
        (∀ planned ∈ files, lower planned.target ≠ lower directory) ∧ result = directory :: checked := by
  unfold checkDirectory
  simp only [bind_eq_ok, fatPath_eq_ok]
  cases hfind : checked.find? fun previous => decide (lower previous = lower directory ∧ previous ≠ directory) with
  | none =>
    have hspelled := find?_eq_none.1 hfind
    simp only [decide_eq_true_eq, not_and, not_not] at hspelled
    constructor
    · rintro ⟨_, ⟨hsafe, rfl⟩, hnext⟩
      rw [hfind] at hnext
      split_ifs at hnext with hmet
      refine ⟨hsafe, hspelled, ?_, pure_eq_ok.1 hnext⟩
      intro planned hplanned heq
      exact hmet (mem_map.2 ⟨planned, hplanned, heq⟩)
    · rintro ⟨hsafe, -, hapart, rfl⟩
      refine ⟨directory, ⟨hsafe, rfl⟩, ?_⟩
      rw [hfind]
      rw [if_neg]
      · rfl
      · intro hmem
        obtain ⟨planned, hplanned, heq⟩ := mem_map.1 hmem
        exact hapart planned hplanned heq
  | some previous =>
    have hprevious := find?_some hfind
    have hmem := mem_of_find?_eq_some hfind
    simp only [decide_eq_true_eq] at hprevious
    constructor
    · rintro ⟨_, ⟨hsafe, rfl⟩, hnext⟩
      rw [hfind] at hnext
      cases hnext
    · rintro ⟨-, hspelled, -⟩
      exact absurd (hspelled previous hmem hprevious.1) hprevious.2

theorem foldlM_checkDirectory :
    (∃ result, directories.foldlM (checkDirectory files) checked = .ok result) ↔
      (∀ directory ∈ directories, FatSafe directory ∧ ∀ planned ∈ files, lower planned.target ≠ lower directory) ∧
        (∀ previous ∈ checked, ∀ directory ∈ directories, lower previous = lower directory → previous = directory) ∧
        directories.Pairwise fun first second => lower first = lower second → first = second := by
  induction directories generalizing checked with
  | nil => simp [pure, Except.pure]
  | cons directory rest ih =>
    simp only [foldlM_cons_eq_ok, checkDirectory_eq_ok, forall_mem_cons, pairwise_cons]
    constructor
    · rintro ⟨result, _, ⟨hsafe, hspelled, hapart, rfl⟩, hrest⟩
      obtain ⟨hall, hchecked, hpairwise⟩ := ih.1 ⟨result, hrest⟩
      refine ⟨⟨⟨hsafe, hapart⟩, hall⟩, ?_, ?_, hpairwise⟩
      · intro previous hprevious
        exact ⟨hspelled previous hprevious, hchecked previous (mem_cons_of_mem directory hprevious)⟩
      · exact hchecked directory mem_cons_self
    · rintro ⟨⟨⟨hsafe, hapart⟩, hall⟩, hchecked, hfirst, hpairwise⟩
      have hnext : ∀ previous ∈ directory :: checked, ∀ other ∈ rest, lower previous = lower other → previous = other := by
        rw [forall_mem_cons]
        exact ⟨hfirst, fun previous hprevious => (hchecked previous hprevious).2⟩
      obtain ⟨result, hresult⟩ := ih.2 ⟨hall, hnext, hpairwise⟩
      exact ⟨result, _, ⟨hsafe, fun previous hprevious => (hchecked previous hprevious).1, hapart, rfl⟩, hresult⟩

theorem mem_sortedSet {texts : List Text} {text : Text} : text ∈ sortedSet texts ↔ text ∈ texts := by
  simp [sortedSet, mem_insertionSort]

theorem foldlM_checkDirectory_sortedSet :
    (∃ result, (sortedSet directories).foldlM (checkDirectory files) [] = .ok result) ↔
      (∀ directory ∈ directories, FatSafe directory ∧ ∀ planned ∈ files, lower planned.target ≠ lower directory) ∧
        ∀ first ∈ directories, ∀ second ∈ directories, lower first = lower second → first = second := by
  rw [foldlM_checkDirectory]
  simp only [mem_sortedSet, not_mem_nil, false_implies, implies_true, true_and]
  apply and_congr_right
  intro _
  constructor
  · intro hpairwise first hfirst second hsecond
    have : Std.Symm fun first second : Text => lower first = lower second → first = second :=
      ⟨fun a b hab heq => (hab heq.symm).symm⟩
    exact hpairwise.forall_of_forall (fun _ _ _ => rfl) (mem_sortedSet.2 hfirst) (mem_sortedSet.2 hsecond)
  · intro hspelled
    apply pairwise_of_forall_mem_list
    intro first hfirst second hsecond
    exact hspelled first (mem_sortedSet.1 hfirst) second (mem_sortedSet.1 hsecond)

/-- A rule stages a file: its source, or a member of its source that is selected. -/
inductive Stages (host : HostFiles) (roots : Text → Text) (board : Board) (rule : LayoutRule) : PlannedFile → Prop
  | file {reference : Text} {size : Nat} {sha256 : Text} (hkind : rule.kind = .file)
      (hsource : rule.source = some reference)
      (hinfo : host.lstat (resolveSource reference roots) = some (.file size sha256)) :
      Stages host roots board rule
        ⟨effectiveTarget rule board, resolveSource reference roots, reference, rule.mode, size, sha256, rule.provenance⟩
  | member {reference relative : Text} {size : Nat} {sha256 : Text} (hkind : rule.kind = .tree)
      (hsource : rule.source = some reference)
      (htree : host.lstat (resolveSource reference roots) = some .directory)
      (hmember : relative ∈ host.rglob (resolveSource reference roots))
      (hinfo : host.lstat (join (resolveSource reference roots) relative) = some (.file size sha256))
      (hselected : selectedByTree rule relative (some board) false) :
      Stages host roots board rule
        (memberFile board rule reference (resolveSource reference roots) relative size sha256)

section

variable {host : HostFiles} {roots : Text → Text} {board : Board} {rule : LayoutRule} {planned : PlannedFile}

variable {reference : Text}

theorem mem_memberContribution {source relative : Text} :
    planned ∈ (memberContribution host board rule reference source relative).files ↔
      ∃ size sha256, host.lstat (join source relative) = some (.file size sha256) ∧
        selectedByTree rule relative (some board) false ∧
        planned = memberFile board rule reference source relative size sha256 := by
  unfold memberContribution
  cases hinfo : host.lstat (join source relative) with
  | none => simp
  | some info =>
    cases info with
    | link | special => simp
    | directory =>
      split_ifs <;> simp
    | file size sha256 =>
      dsimp only
      split_ifs with hselected
      · simp [hselected]
      · simp [hselected]

theorem mem_treeContribution :
    planned ∈ (treeContribution host roots board rule reference).files ↔
      host.lstat (resolveSource reference roots) = some .directory ∧
        ∃ relative ∈ host.rglob (resolveSource reference roots), ∃ size sha256,
          host.lstat (join (resolveSource reference roots) relative) = some (.file size sha256) ∧
            selectedByTree rule relative (some board) false ∧
            planned = memberFile board rule reference (resolveSource reference roots) relative size sha256 := by
  unfold treeContribution
  dsimp only
  cases hinfo : host.lstat (resolveSource reference roots) with
  | none => simp
  | some info =>
    cases info with
    | directory =>
      simp only [files_append, files_total, List.nil_append, mem_flatMap, mem_insertionSort,
        mem_memberContribution, true_and]
    | file | link | special => simp

theorem mem_fileContribution :
    planned ∈ (fileContribution host roots board rule reference).files ↔
      ∃ size sha256, host.lstat (resolveSource reference roots) = some (.file size sha256) ∧
        planned = ⟨effectiveTarget rule board, resolveSource reference roots, reference, rule.mode, size, sha256,
          rule.provenance⟩ := by
  unfold fileContribution
  dsimp only
  cases hinfo : host.lstat (resolveSource reference roots) with
  | none => simp
  | some info => cases info <;> simp

theorem mem_ruleContribution :
    planned ∈ (ruleContribution host roots board rule).files ↔ Stages host roots board rule planned := by
  constructor
  · intro hmem
    unfold ruleContribution at hmem
    cases hkind : rule.kind with
    | directory => simp [hkind] at hmem
    | file =>
      cases hsource : rule.source with
      | none => simp [hkind, hsource] at hmem
      | some reference =>
        simp only [hkind, hsource] at hmem
        obtain ⟨size, sha256, hinfo, rfl⟩ := mem_fileContribution.1 hmem
        exact .file hkind hsource hinfo
    | tree =>
      cases hsource : rule.source with
      | none => simp [hkind, hsource] at hmem
      | some reference =>
        simp only [hkind, hsource] at hmem
        obtain ⟨htree, relative, hmember, size, sha256, hinfo, hselected, rfl⟩ := mem_treeContribution.1 hmem
        exact .member hkind hsource htree hmember hinfo hselected
  · intro hstages
    unfold ruleContribution
    cases hstages with
    | file hkind hsource hinfo =>
      simp only [hkind, hsource]
      exact mem_fileContribution.2 ⟨_, _, hinfo, rfl⟩
    | member hkind hsource htree hmember hinfo hselected =>
      simp only [hkind, hsource]
      exact mem_treeContribution.2 ⟨htree, _, hmember, _, _, hinfo, hselected, rfl⟩

end

def selectedRules (layout : SdLayout) (board : Board) (profile : Profile) (features : List Text) : List LayoutRule :=
  layout.rules.filter fun rule => applies rule board profile features

theorem selectedLayoutEntries_eq_ok {entries : List LayoutRule} :
    selectedLayoutEntries layout board profile features = .ok entries ↔
      (∀ feature ∈ features, aliasName feature) ∧ entries = selectedRules layout board profile features := by
  unfold selectedLayoutEntries selectedRules
  have hall : features.any (fun feature => !aliasName feature) = false ↔ ∀ feature ∈ features, aliasName feature := by
    simp
  split_ifs with hnames
  · simp only [reduceCtorEq, ← hall, hnames, false_and]
  · simp only [ok_eq_ok, ← hall, hnames, true_and]

/-- All that the selected rules contribute. -/
def stagingOf (layout : SdLayout) (board : Board) (host : HostFiles) (roots : Text → Text) (profile : Profile)
    (features : List Text) : Staging :=
  total (ruleContribution host roots board) (selectedRules layout board profile features)

def Staging.plan (staging : Staging) (board : Board) (profile : Profile) (features : List Text) : StagePlan where
  board := board
  profile := profile
  features := sortedSet features
  files := staging.files.insertionSort fun first second => first.target ≤ second.target
  directories := sortedSet staging.withParents
  missingOptionalTargets := sortedSet staging.missingOptional

theorem mem_stagingOf :
    planned ∈ (stagingOf layout board host roots profile features).files ↔
      ∃ rule ∈ selectedRules layout board profile features, Stages host roots board rule planned := by
  simp only [stagingOf, files_total, mem_flatMap, mem_ruleContribution]

theorem planStage_eq_ok {plan : StagePlan} :
    planStage layout board host roots profile features = .ok plan ↔
      (∀ feature ∈ features, aliasName feature) ∧
        (∀ rule ∈ selectedRules layout board profile features, RuleAllowed host roots board rule) ∧
        (stagingOf layout board host roots profile features).Sound ∧
        plan = (stagingOf layout board host roots profile features).plan board profile features := by
  unfold planStage
  simp only [bind_eq_ok, pure_eq_ok, selectedLayoutEntries_eq_ok, foldlM_total stageRule_eq_ok, empty_append]
  constructor
  · rintro ⟨entries, ⟨hnames, rfl⟩, staging, ⟨hallowed, hfits, rfl⟩, directories, hparents, checked, hchecked, rfl⟩
    have hdirectories := foldlM_addParents_of_ok hparents
    obtain ⟨hall, hspelled⟩ := foldlM_checkDirectory_sortedSet.1 ⟨checked, hchecked⟩
    subst hdirectories
    exact ⟨hnames, hallowed, ⟨hfits.1, fun directory h => (hall directory h).1, hspelled,
      fun directory h => (hall directory h).2⟩, rfl⟩
  · rintro ⟨hnames, hallowed, hsound, rfl⟩
    obtain ⟨checked, hchecked⟩ := foldlM_checkDirectory_sortedSet.2
      ⟨fun directory h => ⟨hsound.safe directory h, hsound.apart directory h⟩, hsound.spelled⟩
    exact ⟨_, ⟨hnames, rfl⟩, _, ⟨hallowed, ⟨hsound.files, fun first hfirst => absurd hfirst not_mem_nil⟩, rfl⟩,
      _, foldlM_addParents_ok hsound.apart, checked, hchecked, rfl⟩

end Bmx.SdCard
