import Mathlib.Data.List.Perm.Basic
import Mathlib.Data.List.Nodup
import Bmx.Update.Sha256Spec
import Bmx.Update.FatPathPolicy
import Bmx.Update.Manifest
import Bmx.Base.Checked

/-!
# The assessment of a configuration

Before an update the configuration files are taken up in areas. Each area is hashed, its format is recognized and
compared with what the new release takes, and the plan for all of them is as severe as its worst area.
-/

namespace Bmx.Update

open List

/-! ### Snapshots -/

def ConfigArea.id : ConfigArea → UInt8
  | .unknown => 0
  | .machines => 1
  | .configManagedBlock => 2
  | .cmdlineManagedKeys => 3
  | .network => 4
  | .settings => 5
  | .updateState => 6

/-- `kConfigMigrationAreaCount` areas, in the order of their numbers. -/
def configAreas : List ConfigArea :=
  [.machines, .configManagedBlock, .cmdlineManagedKeys, .network, .settings, .updateState]

structure ConfigFile where
  path : Bytes
  content : Bytes

structure ConfigAreaSnapshot where
  area : ConfigArea
  files : List ConfigFile

def maximumConfigFilesPerArea : Nat := 16
def maximumConfigPathBytes : Nat := 127
def maximumConfigFileBytes : Nat := 512 * 1024
def maximumConfigAreaBytes : Nat := 2 * 1024 * 1024

def isSafeRelativePath (path : Bytes) : Bool :=
  path.length != 0 && path.length ≤ maximumConfigPathBytes && path.head? != some slash &&
    path.getLast? != some slash &&
    scanComponents (fun value => 0x20 ≤ value && value ≤ 0x7e && value != 92)
      (fun component => component != [] && component != ascii "." && component != ascii "..") [] path

def isSettingsPath (path : Bytes) : Bool :=
  12 ≤ path.length && path.take 8 == ascii "settings" && path.drop (path.length - 4) == ascii ".txt" &&
    ((path.drop 8).take (path.length - 12)).all fun value =>
      (97 ≤ value && value ≤ 122) || (65 ≤ value && value ≤ 90) || (48 ≤ value && value ≤ 57) || value == 45 ||
        value == 95

def pathBelongsToArea (area : ConfigArea) (path : Bytes) : Bool :=
  isSafeRelativePath path && match area with
    | .machines => path ∈ [ascii "machines.ini", ascii "machines.defaults.ini", ascii "machines.local.ini"]
    | .configManagedBlock => path == ascii "config.txt"
    | .cmdlineManagedKeys | .network => path == ascii "cmdline.txt"
    | .settings => isSettingsPath path
    | .updateState => path == ascii "BMX-BUILD.json"
    | .unknown => false

/-- The loop of `ValidateAreaSnapshotShape`, with the files before and their size. -/
def validateFiles (area : ConfigArea) : (seen : List ConfigFile) → (total : Nat) → List ConfigFile → Bool
  | _, _, [] => true
  | seen, total, file :: rest =>
    pathBelongsToArea area file.path && file.content.length ≤ maximumConfigFileBytes &&
      total ≤ maximumConfigAreaBytes - file.content.length && seen.all (·.path != file.path) &&
      validateFiles area (seen ++ [file]) (total + file.content.length) rest

def validateAreaSnapshotShape (snapshot : ConfigAreaSnapshot) : Bool :=
  snapshot.area != .unknown && snapshot.files.length ≤ maximumConfigFilesPerArea &&
    validateFiles snapshot.area [] 0 snapshot.files

/-! ### The digest -/

/-- `strcmp` finds the left text greater. -/
def strcmpGreater : Bytes → Bytes → Bool
  | [], _ => false
  | _ :: _, [] => true
  | a :: left, b :: right => if a = b then strcmpGreater left right else b < a

/-- A turn of the insertion sort: the file moves up over those with a greater path, the last of which comes first. -/
def insertFile (file : ConfigFile) : List ConfigFile → List ConfigFile
  | [] => [file]
  | previous :: rest =>
    if strcmpGreater previous.path file.path then previous :: insertFile file rest else file :: previous :: rest

def sortFiles (files : List ConfigFile) : List ConfigFile :=
  (files.foldl (fun sorted file => insertFile file sorted) []).reverse

def configAreaMagic : Bytes := ascii "BMX-CFG-AREA-V1" ++ [0]

def bigEndian16 (value : Nat) : Bytes := [UInt8.ofNat (value >>> 8), UInt8.ofNat value]

def fileChunks (file : ConfigFile) : List Bytes :=
  [bigEndian16 file.path.length, file.path, Sha256.bigEndian64 file.content.length, file.content]

def areaChunks (snapshot : ConfigAreaSnapshot) : List Bytes :=
  configAreaMagic :: [snapshot.area.id] :: [UInt8.ofNat snapshot.files.length] ::
    (sortFiles snapshot.files).flatMap fileChunks

def hashAreaSnapshot (snapshot : ConfigAreaSnapshot) : Option Digest :=
  ((areaChunks snapshot).foldlM Sha256.update Sha256.reset).bind Sha256.final

/-! ### The plan -/

inductive ConfigDetectionDetail
  | valid | missing | unknownFormat | corrupt | limitExceeded
  deriving DecidableEq

structure DetectionResult where
  detail : ConfigDetectionDetail
  version : Nat

inductive ConfigClassification
  | compatible | losslessMigration | resetRequired | unknownOrCorrupt | newerThanTarget
  deriving DecidableEq

/-- The decisions, from the least severe to the most severe one. -/
inductive ConfigPlanDecision
  | compatible | losslessMigration | resetConfirmationRequired | blockedUnknownOrCorrupt | blockedNewerThanTarget
  deriving DecidableEq

structure ConfigSchemaRequirement where
  area : ConfigArea
  targetVersion : Nat
  acceptedVersions : List Nat

structure DeclaredConfigMigration where
  id : Bytes
  area : ConfigArea
  fromVersion : Nat
  toVersion : Nat
  lossy : Bool

structure ConfigAreaAssessment where
  area : ConfigArea
  detection : ConfigDetectionDetail
  sourceVersion : Nat
  targetVersion : Nat
  classification : ConfigClassification
  sourceContentSha256 : Digest

structure ConfigMigrationPlan where
  areas : List ConfigAreaAssessment
  decision : ConfigPlanDecision
  compatibleCount : Nat
  migrationCount : Nat
  resetCount : Nat
  blockedCount : Nat

inductive ConfigAssessmentStatus
  | invalidInput | registryRejected | hashFailed

/-- `ValidateFullSnapshot`: every area once, in any order. -/
def validateFullSnapshot (areas : List ConfigAreaSnapshot) : Bool :=
  areas.length == configAreas.length && (areas.map (·.area)).Nodup && areas.all validateAreaSnapshotShape

/-- One turn of `RecomputePlanDecision`. -/
def countArea (plan : ConfigMigrationPlan) (assessment : ConfigAreaAssessment) : ConfigMigrationPlan :=
  match assessment.classification with
  | .compatible => { plan with compatibleCount := plan.compatibleCount + 1 }
  | .losslessMigration =>
    { plan with
      migrationCount := plan.migrationCount + 1
      decision := if plan.decision = .compatible then .losslessMigration else plan.decision }
  | .resetRequired =>
    { plan with
      resetCount := plan.resetCount + 1
      decision :=
        if plan.decision ≠ .blockedUnknownOrCorrupt ∧ plan.decision ≠ .blockedNewerThanTarget then
          .resetConfirmationRequired
        else plan.decision }
  | .unknownOrCorrupt =>
    { plan with
      blockedCount := plan.blockedCount + 1
      decision := if plan.decision ≠ .blockedNewerThanTarget then .blockedUnknownOrCorrupt else plan.decision }
  | .newerThanTarget =>
    { plan with blockedCount := plan.blockedCount + 1, decision := .blockedNewerThanTarget }

def recomputePlanDecision (areas : List ConfigAreaAssessment) : ConfigMigrationPlan :=
  areas.foldl countArea ⟨areas, .compatible, 0, 0, 0, 0⟩

/-- What an area is, from its version and what the release takes. -/
def classify (requirement : ConfigSchemaRequirement) (migrations : List DeclaredConfigMigration)
    (area : ConfigArea) (detected : DetectionResult) : ConfigClassification :=
  if detected.detail = .valid ∨ detected.detail = .missing then
    if detected.version > requirement.targetVersion then .newerThanTarget
    else if detected.version ∈ requirement.acceptedVersions then .compatible
    else
      match migrations.find? fun migration => migration.area = area ∧ migration.fromVersion = detected.version ∧
          migration.toVersion = requirement.targetVersion with
      | none => .unknownOrCorrupt
      | some migration => if migration.lossy then .resetRequired else .losslessMigration
  else .unknownOrCorrupt

/-- One turn of the loop over the areas. -/
def assessArea (detectArea : ConfigAreaSnapshot → DetectionResult) (areas : List ConfigAreaSnapshot)
    (requirements : List ConfigSchemaRequirement) (migrations : List DeclaredConfigMigration) (area : ConfigArea) :
    Except ConfigAssessmentStatus ConfigAreaAssessment :=
  match areas.find? (·.area = area), requirements.find? (·.area = area) with
  | some source, some requirement =>
    match hashAreaSnapshot source with
    | none => .error .hashFailed
    | some digest =>
      let detected := detectArea source
      .ok ⟨area, detected.detail, detected.version, requirement.targetVersion,
        classify requirement migrations area detected, digest⟩
  | _, _ => .error .invalidInput

/-- `AssessConfigSnapshot`, with the recognition of the formats and the check of the declarations as they may be. -/
def assessConfigSnapshot (detectArea : ConfigAreaSnapshot → DetectionResult)
    (declarationsValid : List ConfigSchemaRequirement → List DeclaredConfigMigration → Bool)
    (areas : List ConfigAreaSnapshot) (requirements : List ConfigSchemaRequirement)
    (migrations : List DeclaredConfigMigration) : Except ConfigAssessmentStatus ConfigMigrationPlan :=
  if validateFullSnapshot areas = false then .error .invalidInput
  else if declarationsValid requirements migrations = false then .error .registryRejected
  else (configAreas.mapM (assessArea detectArea areas requirements migrations)).map recomputePlanDecision

/-! ### Order of enumeration -/

section Digests

variable {a b file : ConfigFile} {files files' sorted : List ConfigFile} {snapshot snapshot' : ConfigAreaSnapshot}

theorem strcmpGreater_iff (left right : Bytes) : strcmpGreater left right = true ↔ right < left := by
  induction left generalizing right with
  | nil => simp [strcmpGreater]
  | cons a left ih =>
    cases right with
    | nil => simp [strcmpGreater]
    | cons b right =>
      rw [strcmpGreater, cons_lt_cons_iff]
      by_cases hab : a = b
      · simp [hab, ih]
      · simp [hab, Ne.symm hab]

/-- A file after which another one may stand, with the greatest path first. -/
def NotBefore (a b : ConfigFile) : Prop := b.path ≤ a.path

theorem insertFile_perm (file : ConfigFile) (sorted : List ConfigFile) :
    (insertFile file sorted).Perm (file :: sorted) := by
  induction sorted with
  | nil => rfl
  | cons previous rest ih =>
    rw [insertFile]
    split
    · exact (ih.cons previous).trans (.swap file previous rest)
    · rfl

theorem insertFile_sorted (h : sorted.Pairwise NotBefore) : (insertFile file sorted).Pairwise NotBefore := by
  induction sorted with
  | nil => exact pairwise_singleton _ _
  | cons previous rest ih =>
    rw [insertFile]
    have hrest := pairwise_cons.1 h
    split
    · next hgreater =>
      have hless : file.path < previous.path := (strcmpGreater_iff _ _).1 hgreater
      refine pairwise_cons.2 ⟨fun other hother => ?_, ih hrest.2⟩
      rcases mem_cons.1 ((insertFile_perm file rest).mem_iff.1 hother) with rfl | hother
      · exact List.le_of_lt hless
      · exact hrest.1 other hother
    · next hgreater =>
      have hle : previous.path ≤ file.path := fun hless => hgreater ((strcmpGreater_iff _ _).2 hless)
      refine pairwise_cons.2 ⟨fun other hother => ?_, h⟩
      rcases mem_cons.1 hother with rfl | hother
      · exact hle
      · exact List.le_trans (hrest.1 other hother) hle

theorem sortFiles_perm (files : List ConfigFile) : (sortFiles files).Perm files := by
  have hfold (sorted : List ConfigFile) :
      (files.foldl (fun sorted file => insertFile file sorted) sorted).Perm (sorted ++ files) := by
    induction files generalizing sorted with
    | nil => rw [append_nil]; rfl
    | cons file rest ih =>
      refine (ih (insertFile file sorted)).trans ?_
      exact ((insertFile_perm file sorted).append_right rest).trans perm_middle.symm
  exact (reverse_perm _).trans (hfold [])

theorem sortFiles_sorted (files : List ConfigFile) : (sortFiles files).reverse.Pairwise NotBefore := by
  have hfold (sorted : List ConfigFile) (h : sorted.Pairwise NotBefore) :
      (files.foldl (fun sorted file => insertFile file sorted) sorted).Pairwise NotBefore := by
    induction files generalizing sorted with
    | nil => exact h
    | cons file rest ih => exact ih _ (insertFile_sorted h)
  rw [sortFiles, reverse_reverse]
  exact hfold [] .nil

/-- Files with distinct paths are hashed in one order, however they are enumerated. -/
theorem sortFiles_eq (hperm : files.Perm files') (hdistinct : files.Pairwise fun a b => a.path ≠ b.path) :
    sortFiles files = sortFiles files' := by
  have hsame := (sortFiles_perm files).trans (hperm.trans (sortFiles_perm files').symm)
  refine reverse_injective (Perm.eq_of_pairwise (fun a b ha hb hab hba => ?_) (sortFiles_sorted files)
    (sortFiles_sorted files') ((reverse_perm _).trans (hsame.trans (reverse_perm _).symm)))
  have hpath : a.path = b.path := List.le_antisymm hba hab
  have ha : a ∈ files := (sortFiles_perm files).mem_iff.1 (mem_reverse.1 ha)
  have hb : b ∈ files := hperm.mem_iff.2 ((sortFiles_perm files').mem_iff.1 (mem_reverse.1 hb))
  exact inj_on_of_nodup_map (pairwise_map.2 hdistinct) ha hb hpath

/-- What the check of the shape says of files. -/
structure FilesValid (area : ConfigArea) (files : List ConfigFile) : Prop where
  distinct : files.Pairwise fun a b => a.path ≠ b.path
  small : ∀ file ∈ files, file.path.length < 2 ^ 16 ∧ file.content.length < 2 ^ 24

theorem validateFiles_valid {area : ConfigArea} {total : Nat} {seen : List ConfigFile}
    (h : validateFiles area seen total files = true) :
    FilesValid area files ∧ ∀ file ∈ files, ∀ earlier ∈ seen, earlier.path ≠ file.path := by
  induction files generalizing seen total with
  | nil => exact ⟨⟨.nil, fun file hfile => by cases hfile⟩, fun file hfile => by cases hfile⟩
  | cons file rest ih =>
    rw [validateFiles] at h
    simp only [Bool.and_eq_true, decide_eq_true_eq, all_eq_true, bne_iff_ne] at h
    obtain ⟨⟨⟨⟨hpath, hcontent⟩, -⟩, hfresh⟩, hrest⟩ := h
    obtain ⟨hvalid, hlater⟩ := ih hrest
    have hfile : file.path.length < 2 ^ 16 ∧ file.content.length < 2 ^ 24 := by
      simp only [pathBelongsToArea, isSafeRelativePath, Bool.and_eq_true, decide_eq_true_eq] at hpath
      have hlength := hpath.1.1.1.1.2
      simp only [maximumConfigPathBytes, maximumConfigFileBytes] at hlength hcontent
      omega
    refine ⟨⟨pairwise_cons.2 ⟨fun other hother => ?_, hvalid.distinct⟩,
      forall_mem_cons.2 ⟨hfile, hvalid.small⟩⟩, forall_mem_cons.2 ⟨hfresh, fun other hother => ?_⟩⟩
    · exact hlater other hother file (mem_append_right _ mem_cons_self)
    · exact fun earlier hearlier => hlater other hother earlier (mem_append_left _ hearlier)

theorem bigEndian16_injective {m n : Nat} (hm : m < 2 ^ 16) (hn : n < 2 ^ 16)
    (h : bigEndian16 m = bigEndian16 n) : m = n := by
  simp only [bigEndian16, cons.injEq, and_true, ← UInt8.toNat_inj, UInt8.toNat_ofNat', Nat.shiftRight_eq_div_pow] at h
  omega

theorem bigEndian64_injective {m n : Nat} (hm : m < 2 ^ 24) (hn : n < 2 ^ 24)
    (h : Sha256.bigEndian64 m = Sha256.bigEndian64 n) : m = n := by
  simp only [Sha256.bigEndian64, range_succ, range_zero, nil_append, cons_append, map_cons,
    map_nil, cons.injEq, and_true, ← UInt8.toNat_inj, UInt8.toNat_ofNat', Nat.shiftRight_eq_div_pow] at h
  omega

/-- The sizes in front of a path and of a content tell where they end. -/
theorem fileChunks_injective (ha : a.path.length < 2 ^ 16 ∧ a.content.length < 2 ^ 24)
    (hb : b.path.length < 2 ^ 16 ∧ b.content.length < 2 ^ 24) {rest rest' : Bytes}
    (h : (fileChunks a).flatten ++ rest = (fileChunks b).flatten ++ rest') : a = b ∧ rest = rest' := by
  simp only [fileChunks, flatten_cons, flatten_nil, append_nil, append_assoc] at h
  obtain ⟨hpathSize, hpaths⟩ := append_inj h rfl
  obtain ⟨hpath, hsizes⟩ := append_inj hpaths (bigEndian16_injective ha.1 hb.1 hpathSize)
  obtain ⟨hcontentSize, hcontents⟩ := append_inj hsizes (by simp [Sha256.bigEndian64])
  obtain ⟨hcontent, hrest⟩ := append_inj hcontents (bigEndian64_injective ha.2 hb.2 hcontentSize)
  exact ⟨by rw [ConfigFile.mk.injEq]; exact ⟨hpath, hcontent⟩, hrest⟩

theorem filesChunks_injective (ha : ∀ file ∈ files, file.path.length < 2 ^ 16 ∧ file.content.length < 2 ^ 24)
    (hb : ∀ file ∈ files', file.path.length < 2 ^ 16 ∧ file.content.length < 2 ^ 24)
    (hlength : files.length = files'.length)
    (h : (files.flatMap fileChunks).flatten = (files'.flatMap fileChunks).flatten) : files = files' := by
  induction files generalizing files' with
  | nil => exact (length_eq_zero_iff.1 hlength.symm).symm
  | cons file rest ih =>
    cases files' with
    | nil => cases hlength
    | cons file' rest' =>
      rw [flatMap_cons, flatMap_cons, flatten_append, flatten_append] at h
      obtain ⟨hfile, hrest⟩ := fileChunks_injective (ha file mem_cons_self) (hb file' mem_cons_self) h
      rw [hfile, ih (fun other hother => ha other (mem_cons_of_mem _ hother))
        (fun other hother => hb other (mem_cons_of_mem _ hother)) (Nat.succ.inj hlength) hrest]

theorem id_injective {area area' : ConfigArea} (h : area.id = area'.id) : area = area' := by
  cases area <;> cases area' <;> first | rfl | exact absurd h (by decide)

/-- The text of which the digest of an area is taken. -/
def areaText (snapshot : ConfigAreaSnapshot) : Bytes := (areaChunks snapshot).flatten

theorem areaText_eq_iff (h : validateAreaSnapshotShape snapshot = true)
    (h' : validateAreaSnapshotShape snapshot' = true) :
    areaText snapshot = areaText snapshot' ↔
      snapshot.area = snapshot'.area ∧ snapshot.files.Perm snapshot'.files := by
  simp only [validateAreaSnapshotShape, Bool.and_eq_true, maximumConfigFilesPerArea] at h h'
  have hcount := of_decide_eq_true h.1.2
  have hcount' := of_decide_eq_true h'.1.2
  have hvalid := (validateFiles_valid h.2).1
  have hvalid' := (validateFiles_valid h'.2).1
  constructor
  · intro heq
    simp only [areaText, areaChunks, flatten_cons] at heq
    have hrest := (append_inj heq rfl).2
    simp only [cons_append, nil_append, cons.injEq] at hrest
    obtain ⟨harea, hlength, hrest⟩ := hrest
    have hlength : snapshot.files.length = snapshot'.files.length := by
      rw [← UInt8.toNat_inj, UInt8.toNat_ofNat', UInt8.toNat_ofNat'] at hlength
      omega
    have hsorted : sortFiles snapshot.files = sortFiles snapshot'.files := by
      refine filesChunks_injective (fun file hfile => ?_) (fun file hfile => ?_) ?_ hrest
      · exact hvalid.small file ((sortFiles_perm _).mem_iff.1 hfile)
      · exact hvalid'.small file ((sortFiles_perm _).mem_iff.1 hfile)
      · rw [(sortFiles_perm _).length_eq, (sortFiles_perm _).length_eq, hlength]
    exact ⟨id_injective harea, (sortFiles_perm _).symm.trans (hsorted ▸ sortFiles_perm _)⟩
  · rintro ⟨harea, hperm⟩
    simp only [areaText, areaChunks, harea, hperm.length_eq, sortFiles_eq hperm hvalid.distinct]

theorem hashAreaSnapshot_eq (snapshot : ConfigAreaSnapshot) :
    hashAreaSnapshot snapshot = sha256Digest (areaText snapshot) := by
  rw [hashAreaSnapshot, update_chunks _ rfl]
  rfl

end Digests

/-! ### The decision -/

def ConfigPlanDecision.severity : ConfigPlanDecision → Nat
  | .compatible => 0
  | .losslessMigration => 1
  | .resetConfirmationRequired => 2
  | .blockedUnknownOrCorrupt => 3
  | .blockedNewerThanTarget => 4

/-- The decision that an area calls for. -/
def ConfigClassification.decision : ConfigClassification → ConfigPlanDecision
  | .compatible => .compatible
  | .losslessMigration => .losslessMigration
  | .resetRequired => .resetConfirmationRequired
  | .unknownOrCorrupt => .blockedUnknownOrCorrupt
  | .newerThanTarget => .blockedNewerThanTarget

theorem severity_injective {a b : ConfigPlanDecision} (h : a.severity = b.severity) : a = b := by
  cases a <;> cases b <;> first | rfl | exact absurd h (by decide)

def worstSeverity (areas : List ConfigAreaAssessment) : Nat :=
  (areas.map fun assessment => assessment.classification.decision.severity).foldr max 0

theorem countArea_severity (plan : ConfigMigrationPlan) (assessment : ConfigAreaAssessment) :
    (countArea plan assessment).decision.severity =
      max plan.decision.severity assessment.classification.decision.severity := by
  unfold countArea
  cases assessment.classification <;> cases plan.decision <;>
    simp [ConfigPlanDecision.severity, ConfigClassification.decision]

theorem recomputePlanDecision_worst (areas : List ConfigAreaAssessment) :
    (recomputePlanDecision areas).areas = areas ∧
      (recomputePlanDecision areas).decision.severity = worstSeverity areas := by
  have hareas (rest : List ConfigAreaAssessment) (plan : ConfigMigrationPlan) :
      (rest.foldl countArea plan).areas = plan.areas := by
    induction rest generalizing plan with
    | nil => rfl
    | cons assessment rest ih =>
      rw [foldl_cons, ih, countArea]
      cases assessment.classification <;> rfl
  have hworst (rest : List ConfigAreaAssessment) (plan : ConfigMigrationPlan) :
      (rest.foldl countArea plan).decision.severity = max plan.decision.severity (worstSeverity rest) := by
    induction rest generalizing plan with
    | nil => exact (Nat.max_zero _).symm
    | cons assessment rest ih =>
      rw [foldl_cons, ih, countArea_severity, Nat.max_assoc]
      rfl
  exact ⟨hareas areas _, (hworst areas _).trans (Nat.zero_max _)⟩

theorem exists_find {α : Type} {key : α → ConfigArea} {items : List α} {area : ConfigArea}
    (h : ∃ item ∈ items, key item = area) :
    ∃ found ∈ items, items.find? (key · = area) = some found := by
  obtain ⟨item, hitem, hkey⟩ := h
  have hsome : (items.find? (key · = area)).isSome := find?_isSome.2 ⟨item, hitem, by simpa using hkey⟩
  obtain ⟨found, hfound⟩ := Option.isSome_iff_exists.1 hsome
  exact ⟨found, mem_of_find?_eq_some hfound, hfound⟩

theorem find_area_iff {areas : List ConfigAreaSnapshot} (hdistinct : (areas.map (·.area)).Nodup) (area : ConfigArea)
    (source : ConfigAreaSnapshot) :
    areas.find? (·.area = area) = some source ↔ source ∈ areas ∧ source.area = area := by
  refine ⟨fun h => ⟨mem_of_find?_eq_some h, by simpa using find?_some h⟩, fun ⟨hsource, harea⟩ => ?_⟩
  obtain ⟨other, hother, hfound⟩ := exists_find ⟨source, hsource, harea⟩
  have hsame : other.area = source.area := by simpa [harea] using find?_some hfound
  rw [hfound, inj_on_of_nodup_map hdistinct hother hsource hsame]

theorem find_area_perm {areas areas' : List ConfigAreaSnapshot} (hperm : areas.Perm areas')
    (hdistinct : (areas.map (·.area)).Nodup) (area : ConfigArea) :
    areas.find? (·.area = area) = areas'.find? (·.area = area) := by
  have hdistinct' := (hperm.map (·.area)).nodup_iff.1 hdistinct
  exact Option.ext fun source => by
    rw [find_area_iff hdistinct, find_area_iff hdistinct', hperm.mem_iff]

/-! ### The areas of a plan -/

section Plans

variable {detectArea : ConfigAreaSnapshot → DetectionResult}
  {declarationsValid : List ConfigSchemaRequirement → List DeclaredConfigMigration → Bool}
  {areas : List ConfigAreaSnapshot} {requirements : List ConfigSchemaRequirement}
  {migrations : List DeclaredConfigMigration} {area : ConfigArea} {snapshot : ConfigAreaSnapshot}
  {assessment : ConfigAreaAssessment} {plan : ConfigMigrationPlan}

/-- A migration of the area from its version to the one of the release. -/
def Leads (migration : DeclaredConfigMigration) (area : ConfigArea) (version target : Nat) : Prop :=
  migration.area = area ∧ migration.fromVersion = version ∧ migration.toVersion = target

/-- What an area is to a release. Of several migrations the first one declared is taken. -/
inductive Classified (requirement : ConfigSchemaRequirement) (migrations : List DeclaredConfigMigration)
    (area : ConfigArea) (detected : DetectionResult) : ConfigClassification → Prop
  | unread (hdetail : detected.detail ∉ [.valid, .missing]) :
      Classified requirement migrations area detected .unknownOrCorrupt
  | newer (hdetail : detected.detail ∈ [.valid, .missing]) (hnewer : requirement.targetVersion < detected.version) :
      Classified requirement migrations area detected .newerThanTarget
  | accepted (hdetail : detected.detail ∈ [.valid, .missing])
      (hversion : detected.version ≤ requirement.targetVersion)
      (haccepted : detected.version ∈ requirement.acceptedVersions) :
      Classified requirement migrations area detected .compatible
  | stuck (hdetail : detected.detail ∈ [.valid, .missing]) (hversion : detected.version ≤ requirement.targetVersion)
      (hrefused : detected.version ∉ requirement.acceptedVersions)
      (hnone : ∀ migration ∈ migrations, ¬Leads migration area detected.version requirement.targetVersion) :
      Classified requirement migrations area detected .unknownOrCorrupt
  | migrated {migration : DeclaredConfigMigration} {earlier later : List DeclaredConfigMigration}
      (hdetail : detected.detail ∈ [.valid, .missing]) (hversion : detected.version ≤ requirement.targetVersion)
      (hrefused : detected.version ∉ requirement.acceptedVersions)
      (hmigrations : migrations = earlier ++ migration :: later)
      (hfirst : ∀ other ∈ earlier, ¬Leads other area detected.version requirement.targetVersion)
      (hleads : Leads migration area detected.version requirement.targetVersion) :
      Classified requirement migrations area detected
        (if migration.lossy then .resetRequired else .losslessMigration)

/-- What the plan says of an area: what was recognized in its files, what that is to the release, and their digest. -/
def Assessed (detectArea : ConfigAreaSnapshot → DetectionResult) (areas : List ConfigAreaSnapshot)
    (requirements : List ConfigSchemaRequirement) (migrations : List DeclaredConfigMigration) (area : ConfigArea)
    (assessment : ConfigAreaAssessment) : Prop :=
  ∃ source ∈ areas, ∃ requirement ∈ requirements.find? (·.area = area),
    source.area = area ∧ assessment.area = area ∧ assessment.detection = (detectArea source).detail ∧
      assessment.sourceVersion = (detectArea source).version ∧
      assessment.targetVersion = requirement.targetVersion ∧
      Classified requirement migrations area (detectArea source) assessment.classification ∧
      sha256Digest (areaText source) = some assessment.sourceContentSha256

theorem classify_classified (requirement : ConfigSchemaRequirement) (migrations : List DeclaredConfigMigration)
    (area : ConfigArea) (detected : DetectionResult) :
    Classified requirement migrations area detected (classify requirement migrations area detected) := by
  rw [classify]
  split
  · next hdetail =>
    have hdetail : detected.detail ∈ [.valid, .missing] := by simpa using hdetail
    split
    · next hnewer => exact .newer hdetail hnewer
    · next hversion =>
      have hversion := Nat.le_of_not_lt hversion
      split
      · next haccepted => exact .accepted hdetail hversion haccepted
      · next hrefused =>
        split
        · next hfind =>
          refine .stuck hdetail hversion hrefused fun migration hmigration hleads => ?_
          exact find?_eq_none.1 hfind migration hmigration (by simpa [Leads] using hleads)
        · next migration hfind =>
          obtain ⟨hleads, earlier, later, hmigrations, hfirst⟩ := find?_eq_some_iff_append.1 hfind
          refine .migrated hdetail hversion hrefused hmigrations (fun other hother hother' => ?_)
            (by simpa [Leads] using hleads)
          simpa [hother'.1, hother'.2.1, hother'.2.2] using hfirst other hother
  · next hdetail => exact .unread (by simpa using hdetail)

theorem assessArea_assessed (h : assessArea detectArea areas requirements migrations area = .ok assessment) :
    Assessed detectArea areas requirements migrations area assessment := by
  rw [assessArea] at h
  split at h
  · next source requirement hsource hrequirement =>
    split at h
    · cases h
    · next digest hdigest =>
      cases h
      refine ⟨source, mem_of_find?_eq_some hsource, requirement, hrequirement, ?_, rfl, rfl, rfl, rfl,
        classify_classified _ _ _ _, hashAreaSnapshot_eq source ▸ hdigest⟩
      simpa using find?_some hsource
  · cases h

theorem fileChunks_length {files : List ConfigFile} {bound : Nat}
    (h : ∀ file ∈ files, file.path.length < 2 ^ 16 ∧ file.content.length < 2 ^ 24) (hbound : files.length ≤ bound) :
    (files.flatMap fileChunks).flatten.length ≤ bound * 2 ^ 25 := by
  induction files generalizing bound with
  | nil => exact Nat.zero_le _
  | cons file rest ih =>
    have hrest := @ih (bound - 1) (fun other hother => h other (mem_cons_of_mem _ hother))
      (Nat.le_sub_one_of_lt hbound)
    have hfile := h file mem_cons_self
    have hsizes : (Sha256.bigEndian64 file.content.length).length = 8 := by simp [Sha256.bigEndian64]
    simp only [flatMap_cons, flatten_append, length_append, fileChunks, flatten_cons,
      flatten_nil, bigEndian16, length_cons, length_nil] at hrest hbound ⊢
    omega

/-- The files of a valid area are so small that they are always hashed. -/
theorem hashAreaSnapshot_isSome (h : validateAreaSnapshotShape snapshot = true) :
    ∃ digest, hashAreaSnapshot snapshot = some digest := by
  simp only [validateAreaSnapshotShape, Bool.and_eq_true, maximumConfigFilesPerArea] at h
  have hsorted := sortFiles_perm snapshot.files
  have hfiles := @fileChunks_length (sortFiles snapshot.files) _
    (fun file hfile => (validateFiles_valid h.2).1.small file (hsorted.mem_iff.1 hfile))
    (hsorted.length_eq ▸ of_decide_eq_true h.1.2)
  have hsize : 8 * (areaText snapshot).length < 2 ^ 64 := by
    have hmagic : configAreaMagic.length = 16 := by decide
    simp only [areaText, areaChunks, flatten_cons, length_append, hmagic, length_cons, length_nil]
    omega
  have hroom : (areaText snapshot).length ≤ uint64Max / 8 := by
    rw [uint64Max]
    omega
  rw [hashAreaSnapshot_eq, sha256Digest,
    Sha256.update_eq_some_iff.2 ⟨rfl, hroom.trans (Nat.div_le_self _ _), rfl⟩, Option.bind_some, Sha256.final,
    if_neg (by simpa [Sha256.reset] using hroom)]
  exact ⟨_, rfl⟩

/-- A snapshot of all areas, each once and in its bounds, which the declarations take up. -/
structure Assessable (declarationsValid : List ConfigSchemaRequirement → List DeclaredConfigMigration → Bool)
    (areas : List ConfigAreaSnapshot) (requirements : List ConfigSchemaRequirement)
    (migrations : List DeclaredConfigMigration) : Prop where
  complete : (areas.map (·.area)).Perm configAreas
  shaped : ∀ source ∈ areas, validateAreaSnapshotShape source = true
  declared : declarationsValid requirements migrations = true
  required : ∀ area ∈ configAreas, ∃ requirement ∈ requirements, requirement.area = area

theorem mem_configAreas : area ∈ configAreas ↔ area ≠ .unknown := by
  cases area <;> decide

theorem validateFullSnapshot_iff :
    validateFullSnapshot areas = true ↔
      (areas.map (·.area)).Perm configAreas ∧ ∀ source ∈ areas, validateAreaSnapshotShape source = true := by
  simp only [validateFullSnapshot, Bool.and_eq_true, beq_iff_eq, decide_eq_true_eq, all_eq_true]
  constructor
  · rintro ⟨⟨hlength, hdistinct⟩, hshaped⟩
    have hknown : areas.map (·.area) ⊆ configAreas := by
      intro area harea
      obtain ⟨source, hsource, rfl⟩ := mem_map.1 harea
      have hshape := hshaped source hsource
      simp only [validateAreaSnapshotShape, Bool.and_eq_true, bne_iff_ne] at hshape
      exact mem_configAreas.2 hshape.1.1
    exact ⟨(subperm_of_subset hdistinct hknown).perm_of_length_le (by rw [length_map, hlength]), hshaped⟩
  · rintro ⟨hcomplete, hshaped⟩
    refine ⟨⟨?_, hcomplete.nodup_iff.2 (by decide)⟩, hshaped⟩
    rw [← hcomplete.length_eq, length_map]

theorem assessConfigSnapshot_eq_ok :
    assessConfigSnapshot detectArea declarationsValid areas requirements migrations = .ok plan ↔
      validateFullSnapshot areas = true ∧ declarationsValid requirements migrations = true ∧
        ∃ assessed, configAreas.mapM (assessArea detectArea areas requirements migrations) = .ok assessed ∧
          recomputePlanDecision assessed = plan := by
  rw [assessConfigSnapshot]
  split
  · next hinvalid => simp [hinvalid]
  split
  · next hrejected => simp [hrejected]
  · next hvalid hdeclared =>
    rw [Bool.not_eq_false] at hvalid hdeclared
    cases hassessed : configAreas.mapM (assessArea detectArea areas requirements migrations) <;>
      simp [hvalid, hdeclared, Except.map]

variable (detectArea) in
/-- Every area of such a snapshot is assessed. -/
theorem assessArea_ok (h : Assessable declarationsValid areas requirements migrations) (harea : area ∈ configAreas) :
    ∃ assessment, assessArea detectArea areas requirements migrations area = .ok assessment := by
  obtain ⟨source, hsource, hfound⟩ := exists_find (mem_map.1 (h.complete.mem_iff.2 harea))
  obtain ⟨requirement, -, hneeded⟩ := exists_find (h.required area harea)
  obtain ⟨digest, hdigest⟩ := hashAreaSnapshot_isSome (h.shaped source hsource)
  rw [assessArea, hfound, hneeded]
  simp only [hdigest]
  exact ⟨_, rfl⟩

end Plans

/-- The digest of an area is one of its content: of the area and of its files in any order, and of nothing that
another area could share. A plan is made of every complete snapshot. It assesses each area by what was recognized in
its files, and its decision is the one of the worst area, whatever their order. -/
theorem configSnapshot_content :
    (∀ snapshot snapshot', validateAreaSnapshotShape snapshot = true → validateAreaSnapshotShape snapshot' = true →
      hashAreaSnapshot snapshot = sha256Digest (areaText snapshot) ∧
        (areaText snapshot = areaText snapshot' ↔
          snapshot.area = snapshot'.area ∧ snapshot.files.Perm snapshot'.files)) ∧
      ∀ detectArea declarationsValid areas requirements migrations,
        (Assessable declarationsValid areas requirements migrations →
          ∃ plan, assessConfigSnapshot detectArea declarationsValid areas requirements migrations = .ok plan) ∧
        ∀ plan, assessConfigSnapshot detectArea declarationsValid areas requirements migrations = .ok plan →
          List.Forall₂ (Assessed detectArea areas requirements migrations) configAreas plan.areas ∧
            plan.decision.severity = worstSeverity plan.areas ∧
            (∀ order, plan.areas.Perm order → (recomputePlanDecision order).decision = plan.decision) ∧
            ∀ areas', areas.Perm areas' →
              assessConfigSnapshot detectArea declarationsValid areas' requirements migrations = .ok plan := by
  refine ⟨fun snapshot snapshot' h h' => ⟨hashAreaSnapshot_eq snapshot, areaText_eq_iff h h'⟩, ?_⟩
  intro detectArea declarationsValid areas requirements migrations
  refine ⟨fun hassessable => ?_, fun plan hplan => ?_⟩
  · obtain ⟨assessed, hassessed⟩ := mapM_ok_of_forall fun area harea =>
      assessArea_ok detectArea hassessable harea
    have hvalid := validateFullSnapshot_iff.2 ⟨hassessable.complete, hassessable.shaped⟩
    exact ⟨_, assessConfigSnapshot_eq_ok.2 ⟨hvalid, hassessable.declared, assessed, hassessed, rfl⟩⟩
  obtain ⟨hvalid, hdeclared, assessed, hassessed, rfl⟩ := assessConfigSnapshot_eq_ok.1 hplan
  obtain ⟨hareas, hworst⟩ := recomputePlanDecision_worst assessed
  rw [hareas]
  refine ⟨(mapM_eq_ok.1 hassessed).imp fun _ _ => assessArea_assessed, hworst, fun order hperm => ?_,
    fun areas' hperm => ?_⟩
  · apply severity_injective
    rw [(recomputePlanDecision_worst order).2, hworst, worstSeverity, worstSeverity]
    exact ((hperm.map _).foldr_eq 0).symm
  · obtain ⟨hcomplete, hshaped⟩ := validateFullSnapshot_iff.1 hvalid
    have hvalid' := validateFullSnapshot_iff.2 ⟨((hperm.map (·.area)).symm.trans hcomplete),
      fun source hsource => hshaped source (hperm.mem_iff.2 hsource)⟩
    have hdistinct : (areas.map (·.area)).Nodup := hcomplete.nodup_iff.2 (by decide)
    have hturn : assessArea detectArea areas' requirements migrations =
        assessArea detectArea areas requirements migrations := by
      funext area
      rw [assessArea, assessArea, find_area_perm hperm hdistinct area]
    exact assessConfigSnapshot_eq_ok.2 ⟨hvalid', hdeclared, assessed, hturn ▸ hassessed, rfl⟩

/-- A card with two settings files, the greater path first, of the version before the one of the release. -/
def sampleAreas : List ConfigAreaSnapshot :=
  configAreas.map fun area =>
    match area with
    | .settings =>
      ⟨area, [⟨ascii "settings-vic20.txt", ascii "Volume=1"⟩, ⟨ascii "settings-c64.txt", ascii "Volume=2"⟩]⟩
    | .network => ⟨area, [⟨ascii "cmdline.txt", ascii "wifi=1"⟩]⟩
    | _ => ⟨area, []⟩

/-- Files of the first version, of which only the settings have to be reset for the second one. -/
def sampleRequirements : List ConfigSchemaRequirement :=
  configAreas.map fun area => if area = .settings then ⟨area, 2, [2]⟩ else ⟨area, 1, [0, 1]⟩

def sampleDetection (source : ConfigAreaSnapshot) : DetectionResult :=
  if source.files = [] then ⟨.missing, 0⟩ else ⟨.valid, 1⟩

def sampleMigrations : List DeclaredConfigMigration :=
  [⟨ascii "settings-v1-to-v2-reset", .settings, 1, 2, true⟩]

theorem configSnapshot_content_settingsReset :
    ∃ plan, assessConfigSnapshot sampleDetection (fun _ _ => true) sampleAreas.reverse sampleRequirements
        sampleMigrations = .ok plan ∧
      plan.decision = .resetConfirmationRequired ∧
      plan.areas.map (·.classification) =
        [.compatible, .compatible, .compatible, .compatible, .resetRequired, .compatible] ∧
      List.Forall₂ (Assessed sampleDetection sampleAreas sampleRequirements sampleMigrations) configAreas
        plan.areas := by
  obtain ⟨hplans, hsound⟩ := configSnapshot_content.2 sampleDetection (fun _ _ => true) sampleAreas sampleRequirements
    sampleMigrations
  obtain ⟨plan, hplan⟩ := hplans ⟨by decide, by decide +kernel, rfl, by decide⟩
  obtain ⟨hassessed, -, -, horder⟩ := hsound plan hplan
  have hvalues : (assessConfigSnapshot sampleDetection (fun _ _ => true) sampleAreas sampleRequirements
      sampleMigrations).toOption.map (fun plan => (plan.decision, plan.areas.map (·.classification))) =
        some (.resetConfirmationRequired,
          [.compatible, .compatible, .compatible, .compatible, .resetRequired, .compatible]) := by
    decide +kernel
  rw [hplan, Except.toOption, Option.map_some, Option.some.injEq, Prod.mk.injEq] at hvalues
  exact ⟨plan, horder _ (reverse_perm _).symm, hvalues.1, hvalues.2, hassessed⟩

end Bmx.Update
