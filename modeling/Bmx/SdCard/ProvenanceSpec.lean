import Bmx.SdCard.StagePlanSpec

/-!
# Where a planned file comes from

The provenance of a path is found from the patterns of the rules alone. It is the provenance of the plan exactly
where each selected rule that claims the path also stages it.
-/

namespace Bmx.SdCard

open List

section

variable {layout : SdLayout} {board : Board} {host : HostFiles} {roots : Text → Text} {profile : Profile}
  {features : List Text} {plan : StagePlan} {planned : PlannedFile} {rule : LayoutRule}

theorem Stages.provenance (h : Stages host roots board rule planned) : planned.provenance = rule.provenance := by
  cases h <;> rfl

theorem Stages.claimOf (h : Stages host roots board rule planned) :
    claimOf board planned.target rule = some ⟨planned.target, some planned.sourceReference, planned.mode, rule⟩ := by
  unfold SdCard.claimOf
  cases h with
  | file hkind hsource hinfo => simp [hkind, hsource]
  | member hkind hsource htree hmember hinfo hselected =>
    simp [hkind, hsource, memberFile, hselected]

theorem claimOf_rule {target : Text} {found : StagePathProvenance} (h : claimOf board target rule = some found) :
    found.rule = rule := by
  unfold claimOf at h
  cases hkind : rule.kind with
  | tree =>
    simp only [hkind, Option.bind_eq_bind, Option.bind_eq_some_iff] at h
    obtain ⟨source, -, relative, -, hfound⟩ := h
    split_ifs at hfound
    cases hfound
    rfl
  | file | directory =>
    simp only [hkind, Option.ite_none_right_eq_some] at h
    cases h.2
    rfl

/-- The path of a planned file leads back to what the plan took it from. -/
def LeadsBack (layout : SdLayout) (board : Board) (profile : Profile) (features : List Text) (planned : PlannedFile) :
    Prop :=
  ∃ found, stagePathProvenance layout board planned.target profile features = .ok (some found) ∧
    found.target = planned.target ∧ found.sourceReference = some planned.sourceReference ∧
    found.mode = planned.mode ∧ found.rule.provenance = planned.provenance

def KeepsItsClaim (host : HostFiles) (roots : Text → Text) (board : Board) (target : Text) (rule : LayoutRule) : Prop :=
  claimOf board target rule ≠ none → ∃ planned, Stages host roots board rule planned ∧ planned.target = target

theorem stagePathProvenance_eq_ok (hnames : ∀ feature ∈ features, aliasName feature) {target : Text}
    (hsafe : FatSafe target) {found : StagePathProvenance} :
    stagePathProvenance layout board target profile features = .ok (some found) ↔
      (selectedRules layout board profile features).filterMap (claimOf board target) = [found] := by
  have htarget : fatPath target "stage provenance target" = .ok target := fatPath_eq_ok.2 ⟨hsafe, rfl⟩
  have hentries := selectedLayoutEntries_eq_ok.2 ⟨hnames, (rfl : selectedRules layout board profile features = _)⟩
  unfold stagePathProvenance
  rw [htarget, hentries]
  simp only [bind, Except.bind]
  cases (selectedRules layout board profile features).filterMap (claimOf board target) with
  | nil => simp [pure, Except.pure]
  | cons first rest =>
    cases rest with
    | nil => simp [pure, Except.pure]
    | cons second rest => simp

theorem no_other_claim {before after : List LayoutRule}
    (hrules : selectedRules layout board profile features = before ++ rule :: after)
    (hsound : (stagingOf layout board host roots profile features).Sound)
    (hstages : Stages host roots board rule planned)
    (hclaims : ∀ other ∈ selectedRules layout board profile features, KeepsItsClaim host roots board planned.target other) :
    ∀ other ∈ before ++ after, claimOf board planned.target other = none := by
  have hfiles := hsound.files
  rw [stagingOf, Staging.files_total, hrules, flatMap_append, flatMap_cons, pairwise_append, pairwise_append] at hfiles
  obtain ⟨-, ⟨-, -, hafter⟩, hbefore⟩ := hfiles
  have hplanned := mem_ruleContribution.2 hstages
  intro other hother
  by_contra hclaim
  have hin : other ∈ selectedRules layout board profile features := by
    grind
  obtain ⟨same, hsame, htarget⟩ := hclaims other hin hclaim
  have hcontributed := mem_ruleContribution.2 hsame
  rcases mem_append.1 hother with hmem | hmem
  · apply hbefore same (mem_flatMap.2 ⟨other, hmem, hcontributed⟩) planned (mem_append_left _ hplanned)
    rw [htarget]
  · apply hafter planned hplanned same (mem_flatMap.2 ⟨other, hmem, hcontributed⟩)
    rw [htarget]

/-- The provenance of a planned file's path is the plan's exactly where its name is safe and each selected rule
that claims the path also stages it. -/
theorem provenance_matches_plan (hplan : planStage layout board host roots profile features = .ok plan)
    (hplanned : planned ∈ plan.files) :
    LeadsBack layout board profile features planned ↔
      FatSafe planned.target ∧
        ∀ rule ∈ selectedRules layout board profile features, KeepsItsClaim host roots board planned.target rule := by
  obtain ⟨hnames, hallowed, hsound, rfl⟩ := planStage_eq_ok.1 hplan
  obtain ⟨rule, hrule, hstages⟩ := mem_stagingOf.1 ((mem_insertionSort _).1 hplanned)
  have hclaim := hstages.claimOf
  constructor
  · rintro ⟨found, hfound, -⟩
    have hsafe : FatSafe planned.target := by
      by_contra hunsafe
      cases htarget : fatPath planned.target "stage provenance target" with
      | ok target => exact hunsafe (fatPath_eq_ok.1 htarget).1
      | error error =>
        unfold stagePathProvenance at hfound
        rw [htarget] at hfound
        cases hfound
    have honly := (stagePathProvenance_eq_ok hnames hsafe).1 hfound
    have hfoundBy : ∀ other ∈ selectedRules layout board profile features, ∀ claimed,
        claimOf board planned.target other = some claimed → claimed = found := by
      intro other hother claimed hclaimed
      have hmem := mem_filterMap.2 ⟨other, hother, hclaimed⟩
      rwa [honly, mem_singleton] at hmem
    refine ⟨hsafe, fun other hother hclaims => ?_⟩
    obtain ⟨claimed, hclaimed⟩ := Option.ne_none_iff_exists'.1 hclaims
    -- Both claims are the one that is found, and a claim tells its rule.
    have hsame : other = rule := by
      rw [← claimOf_rule hclaimed, ← claimOf_rule hclaim, hfoundBy other hother claimed hclaimed,
        hfoundBy rule hrule _ hclaim]
    rw [hsame]
    exact ⟨planned, hstages, rfl⟩
  · rintro ⟨hsafe, hclaims⟩
    obtain ⟨before, after, hrules⟩ := append_of_mem hrule
    have hothers := no_other_claim hrules hsound hstages hclaims
    refine ⟨⟨planned.target, some planned.sourceReference, planned.mode, rule⟩,
      (stagePathProvenance_eq_ok hnames hsafe).2 ?_, rfl, rfl, rfl, hstages.provenance.symm⟩
    rw [hrules, filterMap_append, filterMap_cons, hclaim,
      filterMap_eq_nil_iff.2 fun other h => hothers other (mem_append_left after h),
      filterMap_eq_nil_iff.2 fun other h => hothers other (mem_append_right before h)]
    rfl

end

def sharedLayout : SdLayout := layoutOf [gamesRule "first/games" 0, gamesRule "second/games" 1]

/-- The members of the two trees are disjoint. -/
def sharedHost : HostFiles := .listed [
  (textOf "/first/games", .directory), (textOf "/first/games/a.d64", .file 174848 []),
  (textOf "/second/games", .directory), (textOf "/second/games/b.d64", .file 174848 [])]

def sharedFile : PlannedFile where
  target := textOf "games/a.d64"
  source := textOf "/first/games/a.d64"
  sourceReference := textOf "first/games/a.d64"
  mode := .keep
  size := 174848
  sha256 := []
  provenance := ⟨.both, .tree, 0⟩

/-- The other tree claims the file, although it does not have it. -/
theorem stagePathProvenance_shared : stagePathProvenance sharedLayout .pi4 sharedFile.target .release [] =
    .error (.failed "stage target has multiple provenance rules" [sharedFile.target]) := by
  rfl

theorem sharedFile_lost : ¬LeadsBack sharedLayout .pi4 .release [] sharedFile := by
  rintro ⟨found, hfound, -⟩
  rw [stagePathProvenance_shared] at hfound
  cases hfound

theorem provenance_matches_shared_plan :
    FatSafe sharedFile.target ∧ ∃ rule ∈ selectedRules sharedLayout .pi4 .release [],
      ¬KeepsItsClaim sharedHost rootsOf .pi4 sharedFile.target rule := by
  have hiff : LeadsBack sharedLayout .pi4 .release [] sharedFile ↔
      FatSafe sharedFile.target ∧ ∀ rule ∈ selectedRules sharedLayout .pi4 .release [],
        KeepsItsClaim sharedHost rootsOf .pi4 sharedFile.target rule :=
    provenance_matches_plan rfl (by decide)
  have hsafe : FatSafe sharedFile.target := by decide
  simpa [hsafe, sharedFile_lost] using hiff

set_option maxRecDepth 4000 in
/-- The plan has the file, and the rules do not lead back to it. -/
theorem shared_destination_ambiguous :
    ∃ layout plan, loadSdLayout (documentOf [] [gamesEntry "first/games", gamesEntry "second/games"] []) = .ok layout ∧
      planStage layout .pi4 sharedHost rootsOf .release [] = .ok plan ∧ sharedFile ∈ plan.files ∧
      stagePathProvenance layout .pi4 sharedFile.target .release [] =
        .error (.failed "stage target has multiple provenance rules" [sharedFile.target]) ∧
      ¬LeadsBack layout .pi4 .release [] sharedFile :=
  ⟨sharedLayout, _, by rfl, rfl, by decide, stagePathProvenance_shared, sharedFile_lost⟩

end Bmx.SdCard
