import Bmx.SdCard.DevicePolicy
import Bmx.SdCard.LoadSpec
import Bmx.SdCard.ReviewEdits
import Bmx.SdCard.StagePlanSpec

/-!
# What is staged and what a device takes

A file of its own is staged in the mode that a device has for it. For a member of a tree this is so where the
rule that speaks most narrowly of it has the tree's mode, and there a move of the member leaves the projection
as it is.
-/

namespace Bmx.SdCard

open DeviceMatcher List

section Staging

variable {layout : SdLayout} {projection : DeviceProjection} {board : Board} {host : HostFiles} {roots : Text → Text}
  {profile : Profile} {features : List Text} {plan : StagePlan} {planned : PlannedFile} {rule : LayoutRule}

theorem applies_activeOn (h : applies rule board profile features) : rule.activeOn board := by
  unfold applies at h
  unfold LayoutRule.activeOn
  simp only [Bool.and_eq_true] at h ⊢
  exact h.1.1

theorem mem_selectedRules (h : rule ∈ selectedRules layout board profile features) :
    rule ∈ layout.rules ∧ rule.activeOn board := by
  obtain ⟨hmem, happlies⟩ := mem_filter.1 h
  exact ⟨hmem, applies_activeOn happlies⟩

theorem FatSafe.no_pattern {path : Text} (h : FatSafe path) {character : Char} (hforbidden : character ∈ fatForbidden) :
    character ∉ path := by
  intro hmem
  apply h.2.2.1
  refine .inr (.inr (.inr (any_eq_true.2 ⟨character, hmem, ?_⟩)))
  unfold unsafeCharacter
  rw [decide_eq_true_eq]
  exact .inr (.inr hforbidden)

theorem effectiveTarget_mem_exactTargets (hchecked : rule.Checked) (hkind : rule.kind = .file)
    (hsource : rule.source.isSome) : effectiveTarget rule board ∈ exactTargets rule := by
  have hsafe := hchecked.target (.inr hsource)
  have hexact : ¬(rule.kind ≠ .file ∨ '*' ∈ rule.target ∨ '?' ∈ rule.target) := by
    rintro (hother | hstar | hmark)
    · exact hother hkind
    · exact hsafe.no_pattern (by decide) hstar
    · exact hsafe.no_pattern (by decide) hmark
  unfold exactTargets
  rw [if_neg hexact]
  unfold effectiveTarget
  cases board with
  | pi4 => cases hmove : rule.reviewMovePi4 <;> simp
  | pi5 => cases hmove : rule.reviewMovePi5 <;> simp

theorem file_mode (hmodes : validateDeviceModeConsistency layout = .ok ())
    (hprojection : deviceProjectionDocument layout = .ok projection) (hrule : rule ∈ layout.rules)
    (hchecked : rule.Checked) (hactive : rule.activeOn board) (hkind : rule.kind = .file) (hsource : rule.source.isSome) :
    deviceModeFromProjection layout projection (effectiveTarget rule board) = some rule.mode := by
  unfold validateDeviceModeConsistency at hmodes
  rw [hprojection] at hmodes
  have hboard := forM_eq_ok.1 hmodes board (by cases board <;> simp [boards])
  have htarget := forM_eq_ok.1 hboard (effectiveTarget rule board)
    (mem_flatMap.2 ⟨rule, hrule, effectiveTarget_mem_exactTargets hchecked hkind hsource⟩)
  have hstaged : stagedMode board (effectiveTarget rule board) rule = some rule.mode := by
    unfold stagedMode
    have hstages : ¬(rule.source = none ∨ !rule.activeOn board) := by
      rintro (hnone | hinactive)
      · simp [hnone] at hsource
      · simp [hactive] at hinactive
    rw [if_neg hstages, hkind]
    simp
  have hmem : rule.mode ∈ stagedModesForTarget layout board (effectiveTarget rule board) :=
    mem_dedup.2 (mem_filterMap.2 ⟨rule, hrule, hstaged⟩)
  unfold checkStagedMode at htarget
  split at htarget
  · rename_i hnone
    rw [hnone] at hmem
    cases hmem
  · rename_i mode hone
    rw [hone, mem_singleton] at hmem
    split_ifs at htarget with hmode
    rw [hmode, hmem]
  · cases htarget

theorem member_mode (hstatic : validateStaticLayout layout = .ok ())
    (hprojection : deviceProjectionDocument layout = .ok projection) {directory relative : Text} {mode : Mode} :
    deviceModeFromProjection layout projection (join directory relative) = some mode ↔
      PolicyAgrees layout mode (join directory relative) := by
  obtain ⟨values, hvalues⟩ := deviceProjectionDocument_ok hprojection
  rw [deviceModeFromProjection_eq_some hvalues, if_neg, policyAgrees_iff hvalues.represented]
  · rintro ⟨board, -, htarget⟩
    exact kernel_atTop hstatic htarget (by simp [join])

end Staging

section Edits

variable {layout edited : SdLayout} {rule changed : LayoutRule} {scope : Scope} {target newTarget : Text}

/-- A rule that says the same to a device takes the place of another. -/
theorem replaceRule_policy (h : changed.policy = rule.policy) :
    (replaceRule layout rule changed).rules.map LayoutRule.policy = layout.rules.map LayoutRule.policy := by
  unfold replaceRule
  rw [map_map]
  apply map_congr_left
  intro other _
  dsimp only [Function.comp]
  split_ifs with hother
  · rw [hother, h]
  · rfl

theorem replaceRule_projection (h : changed.policy = rule.policy) :
    deviceProjectionDocument (replaceRule layout rule changed) = deviceProjectionDocument layout :=
  deviceProjectionDocument_congr (replaceRule_policy h)

theorem editPatterns_policy (board : Option Board) (edit : List Text → List Text) :
    (rule.editPatterns board edit).policy = rule.policy := by
  rcases board with _ | _ | _ <;> rfl

theorem move_policy (moved : Option Text) (board : Board) : (rule.move moved board).policy = rule.policy := by
  cases board <;> rfl

theorem moveAll_policy (moved : Option Text) (moves : List Board) :
    (moves.foldl (fun changed board => changed.move moved board) rule).policy = rule.policy := by
  induction moves generalizing rule with
  | nil => rfl
  | cons board rest ih => rw [foldl_cons, ih, move_policy]

theorem enable_policy (enabled : Bool) : (rule.enable scope target enabled).policy = rule.policy := by
  unfold LayoutRule.enable
  by_cases hkind : rule.kind = .file
  · rw [if_pos hkind]
    split <;> rfl
  · rw [if_neg hkind]
    exact editPatterns_policy _ _

theorem withStagePathEnabled_projection {enabled : Bool} (h : withStagePathEnabled layout scope target enabled = .ok edited) :
    deviceProjectionDocument edited = deviceProjectionDocument layout := by
  obtain ⟨rule, -, h⟩ := bind_eq_ok.1 h
  obtain rfl := pure_eq_ok.1 h
  exact replaceRule_projection (enable_policy enabled)

theorem restoreStagePathMove_projection (h : restoreStagePathMove layout scope target = .ok edited) :
    deviceProjectionDocument edited = deviceProjectionDocument layout := by
  obtain ⟨rule, -, h⟩ := bind_eq_ok.1 h
  split_ifs at h
  obtain rfl := pure_eq_ok.1 h
  exact replaceRule_projection (moveAll_policy none _)

theorem moveFile_projection (h : moveFile layout scope rule target = .ok edited) :
    deviceProjectionDocument edited = deviceProjectionDocument layout := by
  obtain ⟨_, -, h⟩ := bind_eq_ok.1 h
  obtain rfl := pure_eq_ok.1 h
  exact replaceRule_projection (moveAll_policy _ _)

theorem moveFile_projects (h : moveFile layout scope rule target = .ok edited) :
    ∃ projection, deviceProjectionDocument layout = .ok projection := by
  obtain ⟨_, hallowed, -⟩ := bind_eq_ok.1 h
  have hboard : ∃ board, board ∈ scope.boards := by
    cases scope with
    | both => exact ⟨.pi4, by simp [Scope.boards, boards]⟩
    | board single => exact ⟨single, by simp [Scope.boards]⟩
  obtain ⟨board, hboard⟩ := hboard
  obtain ⟨mode, hmode, -⟩ := bind_eq_ok.1 (forM_eq_ok.1 hallowed board hboard)
  obtain ⟨projection, hprojection, -⟩ := bind_eq_ok.1 hmode
  exact ⟨projection, hprojection⟩

end Edits

section Lists

/-- Two lists of matchers in a device's order are the same if they have the same matchers. -/
theorem inOrder_eq_iff {first second : List DeviceMatcher} (hfirst : (first.map key).Nodup)
    (hsecond : (second.map key).Nodup) :
    inOrder first = inOrder second ↔ ∀ matcher, matcher ∈ first ↔ matcher ∈ second := by
  constructor
  · intro h matcher
    rw [← mem_inOrder, h, mem_inOrder]
  · intro h
    have hperm : first.Perm second := (perm_ext_iff_of_nodup hfirst.of_map hsecond.of_map).2 h
    apply Perm.eq_of_pairwise _ (pairwise_inOrder first) (pairwise_inOrder second)
    · exact (perm_insertionSort _ _).trans (hperm.trans (perm_insertionSort _ _).symm)
    · intro matcher other hmatcher hother hle hge
      have hkey := MatcherKey.orderKey_injective (le_antisymm hle hge)
      exact inj_on_of_nodup_map hfirst (mem_inOrder.1 hmatcher) ((h other).2 (mem_inOrder.1 hother)) hkey

end Lists

section Carved

variable {layout carved : SdLayout} {projection changed : DeviceProjection} {values others : List DeviceMatcher}
  {explicit : LayoutRule}

/-- A layout with one rule more, of which the rest says the same to a device. -/
def AddsRule (layout carved : SdLayout) (explicit : LayoutRule) : Prop :=
  ∀ rule, rule ∈ carved.rules.map LayoutRule.policy ↔
    rule ∈ layout.rules.map LayoutRule.policy ∨ rule = explicit.policy

/-- A property that a device can see holds of a rule of the larger layout. -/
theorem AddsRule.exists_iff (h : AddsRule layout carved explicit) {property : LayoutRule → Prop}
    (hproperty : ∀ rule : LayoutRule, property rule.policy ↔ property rule) :
    (∃ rule ∈ carved.rules, property rule) ↔ (∃ rule ∈ layout.rules, property rule) ∨ property explicit := by
  have hpolicies : ∀ rules : List LayoutRule,
      (∃ rule ∈ rules, property rule) ↔ ∃ rule ∈ rules.map LayoutRule.policy, property rule := by
    intro rules
    simp only [mem_map, exists_exists_and_eq_and, hproperty]
  rw [hpolicies, hpolicies layout.rules, ← hproperty explicit]
  constructor
  · rintro ⟨rule, hrule, hholds⟩
    rcases (h rule).1 hrule with hrule | rfl
    · exact .inl ⟨rule, hrule, hholds⟩
    · exact .inr hholds
  · rintro (⟨rule, hrule, hholds⟩ | hholds)
    · exact ⟨rule, (h rule).2 (.inl hrule), hholds⟩
    · exact ⟨_, (h _).2 (.inr rfl), hholds⟩

variable {matcher : DeviceMatcher} {board : Board} {includeOptional : Bool} {target relative : Text}

theorem AddsRule.mem_policyMatchers (h : AddsRule layout carved explicit) :
    matcher ∈ policyMatchers carved.rules ↔
      matcher ∈ policyMatchers layout.rules ∨ ∃ matchers, ruleMatchers explicit = .ok matchers ∧ matcher ∈ matchers := by
  rw [SdCard.mem_policyMatchers, SdCard.mem_policyMatchers]
  exact h.exists_iff fun rule => Iff.rfl

theorem mem_kernelTargetsUnchecked :
    target ∈ kernelTargetsUnchecked layout board includeOptional ↔
      ∃ rule ∈ layout.rules, (rule.inScope board && rule.kind = .file && rule.mode = .kernel &&
        (includeOptional || !rule.optional)) ∧ rule.target = target := by
  unfold kernelTargetsUnchecked
  simp only [mem_map, mem_filter, and_assoc]

theorem AddsRule.mem_kernelTargets (h : AddsRule layout carved explicit) :
    target ∈ kernelTargetsUnchecked carved board includeOptional ↔
      target ∈ kernelTargetsUnchecked layout board includeOptional ∨
        (explicit.inScope board && explicit.kind = .file && explicit.mode = .kernel &&
          (includeOptional || !explicit.optional)) ∧ explicit.target = target := by
  rw [mem_kernelTargetsUnchecked, mem_kernelTargetsUnchecked]
  exact h.exists_iff fun rule => Iff.rfl

theorem saysNothing_congr (hvalues : OneEach values) (hothers : OneEach others)
    (h : matcher.key.kind = .exactPath → ∀ other, other.key ≠ matcher.key →
      other.key.matchesPath matcher.key.value → (other ∈ others ↔ other ∈ values)) :
    saysNothing others matcher ↔ saysNothing values matcher := by
  rw [saysNothing_iff hothers, saysNothing_iff hvalues]
  apply and_congr_right
  intro hkind
  apply exists_congr
  intro winner
  apply and_congr_left
  intro _
  have hfiltered : ∀ other, other.key.matchesPath matcher.key.value →
      ((other ∈ others.filter fun other => other.key ≠ matcher.key) ↔
        other ∈ values.filter fun other => other.key ≠ matcher.key) := by
    intro other hmatches
    rw [mem_filter, mem_filter, decide_eq_true_eq]
    exact and_congr_left fun hkey => h hkind other hkey hmatches
  constructor
  · rintro ⟨hmem, hmatches, hle⟩
    exact ⟨(hfiltered winner hmatches).1 hmem, hmatches, fun other hother hotherMatches =>
      hle other ((hfiltered other hotherMatches).2 hother) hotherMatches⟩
  · rintro ⟨hmem, hmatches, hle⟩
    exact ⟨(hfiltered winner hmatches).2 hmem, hmatches, fun other hother hotherMatches =>
      hle other ((hfiltered other hotherMatches).1 hother) hotherMatches⟩

def LayoutRule.exactMatcher (rule : LayoutRule) : DeviceMatcher := ⟨⟨.exactPath, [], rule.target, []⟩, rule.mode⟩

theorem ruleMatchers_file (hkind : explicit.kind = .file) (hsafe : FatSafe explicit.target) (hmode : explicit.mode ≠ .kernel) :
    ruleMatchers explicit = .ok [explicit.exactMatcher] := by
  have hstar : '*' ∉ explicit.target := hsafe.no_pattern (by decide)
  have hmark : '?' ∉ explicit.target := hsafe.no_pattern (by decide)
  have hdoubleStar : explicit.target.take 3 ≠ textOf "**/" := by
    intro htake
    apply hstar
    apply mem_of_mem_take
    rw [htake]
    decide
  unfold ruleMatchers deviceMatcher
  simp [hkind, hmode, hstar, hmark, hdoubleStar, LayoutRule.exactMatcher]

theorem exactMatcher_matches (rule : LayoutRule) (path : Text) : rule.exactMatcher.key.matchesPath path ↔ path = rule.target :=
  exactPath_matches rfl

theorem exactPath_rank {kind : MatcherKind} (h : kind ≠ .exactPath) :
    Char.ofNat MatcherKind.exactPath.rank < Char.ofNat kind.rank := by
  cases kind with
  | exactPath => exact absurd rfl h
  | basenameExact | basenamePrefixSuffix | basenameSuffix | topRoot => decide

theorem exactMatcher_le {rule : LayoutRule} {other : DeviceMatcher}
    (hexact : other.key.kind = .exactPath → other.key = ⟨.exactPath, [], other.key.value, []⟩)
    (hmatches : other.key.matchesPath rule.target) : rule.exactMatcher.le other := by
  unfold le LayoutRule.exactMatcher
  by_cases hkind : other.key.kind = .exactPath
  · have hvalue := (exactPath_matches (hexact hkind)).1 hmatches
    rw [hexact hkind, hvalue]
  · apply le_of_lt
    apply List.Lex.rel
    apply List.Lex.rel
    exact exactPath_rank hkind

/-- A file that is carved out changes the matchers of a device, unless its policy has that mode already. -/
theorem rules_eq_iff (h : AddsRule layout carved explicit) (hbefore : Projects layout projection values)
    (hafter : Projects carved changed others) (hkind : explicit.kind = .file) (hsafe : FatSafe explicit.target)
    (hmode : explicit.mode ≠ .kernel) :
    changed.rules = projection.rules ↔ PolicyAgrees layout explicit.mode explicit.target := by
  have hmem : ∀ matcher, matcher ∈ others ↔ matcher ∈ values ∨ matcher = explicit.exactMatcher := by
    intro matcher
    rw [hafter.mem, h.mem_policyMatchers, hbefore.mem, ruleMatchers_file hkind hsafe hmode]
    simp
  have hkeys : ∀ {list : List DeviceMatcher}, (list.map key).Nodup →
      ((list.filter fun matcher => !saysNothing list matcher).map key).Nodup :=
    fun hnodup => hnodup.sublist (filter_sublist.map _)
  have hagrees : PolicyAgrees layout explicit.mode explicit.target ↔
      ∃ winner, IsFirst values explicit.target winner ∧ winner.mode = explicit.mode := by
    rw [policyAgrees_iff hbefore.represented]
    simp only [IsFirst.congr hbefore.mem]
  rw [hafter.rules, hbefore.rules, inOrder_eq_iff (hkeys hafter.distinct) (hkeys hbefore.distinct), hagrees]
  by_cases hpresent : ∃ matcher ∈ values, matcher.key = explicit.exactMatcher.key
  · -- The exact path is there already, with the same mode.
    obtain ⟨matcher, hmatcher, hkey⟩ := hpresent
    have hexplicit : explicit.exactMatcher ∈ values := by
      rwa [← hafter.oneEach matcher ((hmem matcher).2 (.inl hmatcher)) _ ((hmem _).2 (.inr rfl)) hkey]
    have hsame : ∀ matcher, matcher ∈ others ↔ matcher ∈ values := by
      intro matcher
      rw [hmem]
      constructor
      · rintro (hmatcher | rfl)
        · exact hmatcher
        · exact hexplicit
      · exact .inl
    constructor
    · intro _
      refine ⟨explicit.exactMatcher, ⟨hexplicit, (exactMatcher_matches explicit _).2 rfl, ?_⟩, rfl⟩
      intro other hother hmatches
      exact exactMatcher_le (hbefore.exactAlone other hother) hmatches
    · intro _ matcher
      rw [mem_filter, mem_filter, hsame]
      apply and_congr_right
      intro _
      have hcongr := saysNothing_congr hbefore.oneEach hafter.oneEach
        (fun _ other _ _ => hsame other : matcher.key.kind = .exactPath → _)
      rw [Bool.not_eq_true', Bool.not_eq_true', ← Bool.not_eq_true, ← Bool.not_eq_true, hcongr]
  · -- The exact path is new, and the others are as before.
    have hnew : ∀ matcher ∈ values, matcher.key ≠ explicit.exactMatcher.key := fun matcher hmatcher hkey =>
      hpresent ⟨matcher, hmatcher, hkey⟩
    have hothers : ∀ matcher ∈ values, (saysNothing others matcher ↔ saysNothing values matcher) := by
      intro matcher hmatcher
      apply saysNothing_congr hbefore.oneEach hafter.oneEach
      intro hmatcherKind other _ hmatches
      rw [hmem]
      constructor
      · rintro (hother | rfl)
        · exact hother
        · have hkey := hbefore.exactAlone matcher hmatcher hmatcherKind
          have hvalue := (exactMatcher_matches explicit _).1 hmatches
          rw [hvalue] at hkey
          exact absurd hkey (hnew matcher hmatcher)
      · exact .inl
    have hnothing : saysNothing others explicit.exactMatcher ↔
        ∃ winner, IsFirst values explicit.target winner ∧ winner.mode = explicit.mode := by
      rw [saysNothing_iff hafter.oneEach]
      have hrest : ∀ matcher, (matcher ∈ others.filter fun other => other.key ≠ explicit.exactMatcher.key) ↔ matcher ∈ values := by
        intro matcher
        rw [mem_filter, hmem, decide_eq_true_eq]
        constructor
        · rintro ⟨hmatcher | rfl, hkey⟩
          · exact hmatcher
          · exact absurd rfl hkey
        · intro hmatcher
          exact ⟨.inl hmatcher, hnew matcher hmatcher⟩
      simp only [IsFirst.congr hrest]
      exact and_iff_right rfl
    rw [← hnothing]
    constructor
    · intro hsame
      by_contra hkept
      have hleft := (hsame explicit.exactMatcher).1
        (mem_filter.2 ⟨(hmem _).2 (.inr rfl), by simpa using hkept⟩)
      exact hnew _ (mem_filter.1 hleft).1 rfl
    · intro hnothing matcher
      rw [mem_filter, mem_filter, hmem]
      constructor
      · rintro ⟨hmatcher | rfl, hkept⟩
        · refine ⟨hmatcher, ?_⟩
          rw [Bool.not_eq_true', ← Bool.not_eq_true] at hkept ⊢
          rwa [← hothers matcher hmatcher]
        · rw [hnothing] at hkept
          cases hkept
      · rintro ⟨hmatcher, hkept⟩
        refine ⟨.inl hmatcher, ?_⟩
        rw [Bool.not_eq_true', ← Bool.not_eq_true] at hkept ⊢
        rwa [hothers matcher hmatcher]

theorem topRoot_join (directory relative : Text) : topRoot (join directory relative) = topRoot directory := by
  unfold topRoot join
  by_cases hslash : '/' ∈ directory
  · rw [takeWhile_append]
    rw [if_neg]
    intro hlength
    have hall := takeWhile_eq_self_iff.1
      (IsPrefix.eq_of_length ( takeWhile_prefix fun character => decide (character ≠ '/')) hlength)
    simpa using hall '/' hslash
  · have hall : directory.takeWhile (fun character => decide (character ≠ '/')) = directory := by
      rw [takeWhile_eq_self_iff]
      intro character hmem
      rw [decide_eq_true_eq]
      rintro rfl
      exact hslash hmem
    rw [takeWhile_append, hall]
    simp

theorem ruleDirectories_member {directory : Text}
    (htarget : explicit.target = join directory relative) {name : Text} (h : name ∈ ruleDirectories explicit) :
    name = topRoot directory := by
  unfold ruleDirectories at h
  split_ifs at h
  · rw [mem_singleton.1 h, htarget, topRoot_join]
  · cases h

/-- A member that is carved out of a tree leaves the projection as it is, exactly where the policy has the mode of
the tree for it. -/
theorem carved_projection (h : AddsRule layout carved explicit) (hstatic : validateStaticLayout layout = .ok ())
    (hprojection : deviceProjectionDocument layout = .ok projection)
    (hchanged : deviceProjectionDocument carved = .ok changed) {tree : LayoutRule} (htree : tree ∈ layout.rules)
    (htreeKind : tree.kind = .tree) (htarget : explicit.target = join tree.target relative)
    (hkind : explicit.kind = .file) (hsafe : FatSafe explicit.target) :
    deviceProjectionDocument carved = deviceProjectionDocument layout ↔
      PolicyAgrees layout explicit.mode explicit.target := by
  obtain ⟨values, hbefore⟩ := deviceProjectionDocument_ok hprojection
  obtain ⟨others, hafter⟩ := deviceProjectionDocument_ok hchanged
  rw [hprojection, hchanged, Except.ok.injEq]
  by_cases hmode : explicit.mode = .kernel
  · -- A kernel is new on its boards, and has no matcher.
    constructor
    · intro hsame
      have hboard : ∃ board, explicit.inScope board = true := by
        cases hscope : explicit.scope with
        | both => exact ⟨.pi4, by simp [LayoutRule.inScope, hscope]⟩
        | board single => exact ⟨single, by simp [LayoutRule.inScope, hscope]⟩
      obtain ⟨board, hboard⟩ := hboard
      have hnew : explicit.target ∈ kernelTargetsUnchecked carved board true := by
        rw [h.mem_kernelTargets]
        exact .inr ⟨by simp [hboard, hkind, hmode], rfl⟩
      have hall : explicit.target ∈ changed.all board := by
        rw [hafter.all]
        exact mem_toFinset.2 hnew
      rw [hsame, hbefore.all] at hall
      refine absurd (kernel_atTop hstatic (mem_toFinset.1 hall)) ?_
      simp [htarget, join]
    · rintro ⟨rule, -, narrowness, -, hkernel, -⟩
      exact absurd hmode hkernel
  · rw [← rules_eq_iff h hbefore hafter hkind hsafe hmode]
    constructor
    · rintro rfl
      rfl
    · intro hrules
      have hkernels : ∀ board includeOptional target, target ∈ kernelTargetsUnchecked carved board includeOptional ↔
          target ∈ kernelTargetsUnchecked layout board includeOptional := by
        intro board includeOptional target
        rw [h.mem_kernelTargets]
        simp [hmode]
      have hdirectories : changed.directories = projection.directories := by
        rw [hafter.directories, hbefore.directories]
        ext name
        rw [mem_toFinset, mem_toFinset, mem_flatMap, mem_flatMap, h.exists_iff fun rule => Iff.rfl]
        constructor
        · rintro (hname | hname)
          · exact hname
          · refine ⟨tree, htree, ?_⟩
            rw [ruleDirectories_member htarget hname]
            simp [ruleDirectories, htreeKind]
        · exact .inl
      have hrequired : changed.required = projection.required := by
        rw [hafter.required, hbefore.required]
        ext target
        rw [mem_toFinset, mem_toFinset, hkernels]
      have hall : changed.all = projection.all := by
        rw [hafter.all, hbefore.all]
        ext target
        rw [mem_toFinset, mem_toFinset, hkernels]
      cases changed
      simp_all

end Carved

section Moves

variable {layout edited carved : SdLayout} {projection : DeviceProjection} {rule explicit : LayoutRule} {scope : Scope}
  {target newTarget : Text}

theorem mem_appendLayoutRule {added other : LayoutRule} :
    other ∈ (appendLayoutRule layout added).rules ↔ other ∈ layout.rules ∨ other = added := by
  unfold appendLayoutRule
  rw [mem_insertionSort, mem_append, mem_singleton]

theorem addsRule_append {changed : LayoutRule} (h : changed.policy = rule.policy) :
    AddsRule layout (appendLayoutRule (replaceRule layout rule changed) explicit) explicit := by
  intro policy
  have hpolicies : (replaceRule layout rule changed).rules.map LayoutRule.policy = layout.rules.map LayoutRule.policy :=
    replaceRule_policy h
  rw [← hpolicies]
  simp only [mem_map, mem_appendLayoutRule]
  constructor
  · rintro ⟨other, hother | rfl, rfl⟩
    · exact .inl ⟨other, hother, rfl⟩
    · exact .inr rfl
  · rintro (⟨other, hother, rfl⟩ | rfl)
    · exact ⟨other, .inl hother, rfl⟩
    · exact ⟨explicit, .inr rfl, rfl⟩

theorem treeMember_ok {relative source : Text} (h : treeMember layout rule target = .ok (relative, source)) :
    target = join rule.target relative := by
  unfold treeMember at h
  split at h
  · rename_i found hbelow
    obtain ⟨checked, -, h⟩ := bind_eq_ok.1 h
    cases pure_eq_ok.1 h
    exact below_eq_some.1 hbelow
  · cases h

theorem carveOut_ok (h : carveOut layout scope rule target = .ok (carved, explicit)) :
    AddsRule layout carved explicit ∧ explicit.kind = .file ∧ explicit.target = target ∧ explicit.mode = rule.mode ∧
      ∃ relative, target = join rule.target relative := by
  obtain ⟨⟨relative, source⟩, hmember, h⟩ := bind_eq_ok.1 h
  dsimp only at h
  split at h
  · cases h
  · split at h
    · cases h
    · cases pure_eq_ok.1 h
      exact ⟨addsRule_append (editPatterns_policy _ _), rfl, rfl, rfl, relative, treeMember_ok hmember⟩

theorem editableRule_ok (h : editableRule layout scope target = .ok rule) : rule ∈ layout.rules ∧ FatSafe target := by
  obtain ⟨candidates, hcandidates, h⟩ := bind_eq_ok.1 h
  obtain ⟨safe, hsafe, hlist⟩ := bind_eq_ok.1 hcandidates
  obtain ⟨hsafe, rfl⟩ := fatPath_eq_ok.1 hsafe
  have hmem := pure_eq_ok.1 hlist
  refine ⟨?_, hsafe⟩
  split at h
  · obtain rfl := pure_eq_ok.1 h
    split_ifs at hmem
    · exact (mem_filter.1 (hmem ▸ mem_singleton_self rule)).1
    · exact (mem_filter.1 (mem_filter.1 (hmem ▸ mem_singleton_self rule)).1).1
  · cases h

theorem withStagePathMoved_projection (hstatic : validateStaticLayout layout = .ok ())
    (hprojection : deviceProjectionDocument layout = .ok projection)
    (h : withStagePathMoved layout scope target newTarget = .ok edited) :
    ∃ rule, editableRule layout scope target = .ok rule ∧
      (deviceProjectionDocument edited = deviceProjectionDocument layout ↔
        (rule.kind = .tree → PolicyAgrees layout rule.mode target)) := by
  obtain ⟨rule, hrule, h⟩ := bind_eq_ok.1 h
  obtain ⟨safe, -, h⟩ := bind_eq_ok.1 h
  obtain ⟨current, hcurrent, h⟩ := bind_eq_ok.1 h
  obtain ⟨hsafe, rfl⟩ := fatPath_eq_ok.1 hcurrent
  refine ⟨rule, hrule, ?_⟩
  split_ifs at h with hsame hkind hfile
  · obtain ⟨⟨carved, explicit⟩, hcarved, hmoved⟩ := bind_eq_ok.1 h
    obtain ⟨hadds, hexplicit, rfl, hmode, relative, htarget⟩ := carveOut_ok hcarved
    obtain ⟨changed, hchanged⟩ := moveFile_projects hmoved
    rw [moveFile_projection hmoved, carved_projection hadds hstatic hprojection hchanged (editableRule_ok hrule).1 hkind
      htarget hexplicit hsafe, hmode]
    exact ⟨fun hagrees _ => hagrees, fun hagrees => hagrees hkind⟩
  · exact iff_of_true (moveFile_projection h) fun htree => absurd htree hkind

end Moves

/-- Files of their own agree with the device, and so does each edit that carves out nothing. A member of a tree
agrees, and may be moved, exactly where the rule that speaks most narrowly of it has the mode of the tree. -/
theorem staging_agrees_with_device {document : TomlValue} {layout : SdLayout} (hload : loadSdLayout document = .ok layout) :
    ∃ projection, deviceProjectionDocument layout = .ok projection ∧
      (∀ board host roots profile features plan, planStage layout board host roots profile features = .ok plan →
        ∀ planned ∈ plan.files, deviceModeFromProjection layout projection planned.target = some planned.mode ↔
          (planned.provenance.kind = .tree → PolicyAgrees layout planned.mode planned.target)) ∧
      (∀ scope target enabled edited, withStagePathEnabled layout scope target enabled = .ok edited →
        deviceProjectionDocument edited = .ok projection) ∧
      (∀ scope target edited, restoreStagePathMove layout scope target = .ok edited →
        deviceProjectionDocument edited = .ok projection) ∧
      ∀ scope target newTarget edited, withStagePathMoved layout scope target newTarget = .ok edited →
        ∃ rule, editableRule layout scope target = .ok rule ∧
          (deviceProjectionDocument edited = .ok projection ↔
            (rule.kind = .tree → PolicyAgrees layout rule.mode target)) := by
  obtain ⟨hread, hstatic, hmodes⟩ := loadSdLayout_ok hload
  have hchecked := (readLayout_ok hread).2
  obtain ⟨projection, hprojection, -⟩ := bind_eq_ok.1 hmodes
  refine ⟨projection, hprojection, ?_, ?_, ?_, ?_⟩
  · intro board host roots profile features plan hplan planned hplanned
    obtain ⟨hnames, hallowed, hsound, rfl⟩ := planStage_eq_ok.1 hplan
    obtain ⟨rule, hrule, hstages⟩ := mem_stagingOf.1 ((mem_insertionSort _).1 hplanned)
    obtain ⟨hmem, hactive⟩ := mem_selectedRules hrule
    cases hstages with
    | file hkind hsource hinfo =>
      have hmode := file_mode hmodes hprojection hmem (hchecked rule hmem) hactive hkind (by rw [hsource]; rfl)
      refine iff_of_true hmode fun htree => ?_
      rw [LayoutRule.provenance, hkind] at htree
      cases htree
    | member hkind hsource htree hmember hinfo hselected =>
      rw [memberFile, member_mode hstatic hprojection, LayoutRule.provenance, hkind]
      exact ⟨fun hagrees _ => hagrees, fun hagrees => hagrees rfl⟩
  · intro scope target enabled edited hedited
    rw [withStagePathEnabled_projection hedited, hprojection]
  · intro scope target edited hedited
    rw [restoreStagePathMove_projection hedited, hprojection]
  · intro scope target newTarget edited hedited
    rw [← hprojection]
    exact withStagePathMoved_projection hstatic hprojection hedited

def keymapRule : LayoutRule where
  scope := .both
  kind := .file
  ordinal := 7
  target := textOf "**/*.vkm"
  mode := .replace

def musicRule : LayoutRule where
  scope := .both
  kind := .tree
  ordinal := 1
  target := textOf "music"
  mode := .keep

/-- A tree that is kept, and keymaps that are replaced wherever they are. -/
def keymapLayout : SdLayout := layoutOf [keymapRule, gamesRule "first/games" 0, musicRule]

def keymapDocument : TomlValue :=
  documentOf [entryOf (textOf "**/*.vkm") (textOf "replace") []]
    [gamesEntry "first/games", entryOf (textOf "music") (textOf "keep") []] []

set_option maxRecDepth 4000 in
theorem keymapDocument_loads : loadSdLayout keymapDocument = .ok keymapLayout := by rfl

/-- The tree has a disk image and a keymap. -/
def keymapHost : HostFiles := .listed [
  (textOf "/first/games", .directory), (textOf "/first/games/a.d64", .file 16 []),
  (textOf "/first/games/user.vkm", .file 512 [])]

def imageFile : PlannedFile where
  target := textOf "games/a.d64"
  source := textOf "/first/games/a.d64"
  sourceReference := textOf "first/games/a.d64"
  mode := .keep
  size := 16
  sha256 := []
  provenance := ⟨.both, .tree, 0⟩

def keymapFile : PlannedFile := { imageFile with
  target := textOf "games/user.vkm"
  source := textOf "/first/games/user.vkm"
  sourceReference := textOf "first/games/user.vkm"
  size := 512 }

set_option maxRecDepth 4000 in
/-- The disk image is staged as a device takes it, by the rule of its tree. -/
theorem staging_agrees_with_device_keymaps :
    ∃ projection plan, deviceProjectionDocument keymapLayout = .ok projection ∧
      planStage keymapLayout .pi4 keymapHost rootsOf .release [] = .ok plan ∧ imageFile ∈ plan.files ∧
        PolicyAgrees keymapLayout .keep imageFile.target ∧
          deviceModeFromProjection keymapLayout projection imageFile.target = some .keep := by
  obtain ⟨projection, hprojection, hplanned, -⟩ := staging_agrees_with_device keymapDocument_loads
  obtain ⟨plan, hplan, hfile⟩ : ∃ plan,
      planStage keymapLayout .pi4 keymapHost rootsOf .release [] = .ok plan ∧ imageFile ∈ plan.files :=
    ⟨_, rfl, by decide⟩
  obtain ⟨values, hvalues⟩ := deviceProjectionDocument_ok hprojection
  have hagrees : PolicyAgrees keymapLayout .keep imageFile.target :=
    (policyAgrees_iff hvalues.represented).2
      ⟨⟨⟨.topRoot, textOf "games", [], []⟩, .keep⟩, ⟨by decide, by decide, by decide⟩, rfl⟩
  exact ⟨projection, plan, hprojection, hplan, hfile, hagrees,
    (hplanned _ _ _ _ _ _ hplan imageFile hfile).2 fun _ => hagrees⟩

set_option maxRecDepth 4000 in
/-- The keymap is staged to be kept, but a device replaces it. When it is moved away, the device is told of its old
path, which it was not told of before. -/
theorem staged_keymap_replaced :
    loadSdLayout keymapDocument = .ok keymapLayout ∧
      (∃ plan, planStage keymapLayout .pi4 keymapHost rootsOf .release [] = .ok plan ∧ keymapFile ∈ plan.files) ∧
      deviceModeForPath keymapLayout keymapFile.target = .ok (some .replace) ∧
      ∃ edited, withStagePathMoved keymapLayout .both (textOf "games/user.vkm") (textOf "music/user.bin") = .ok edited ∧
        deviceProjectionDocument edited ≠ deviceProjectionDocument keymapLayout := by
  refine ⟨by rfl, ⟨_, rfl, by decide⟩, by rfl, _, rfl, ?_⟩
  intro hsame
  have hrules := congrArg (fun document => document.toOption.map fun projection => projection.rules.length) hsame
  exact absurd hrules (by decide)

end Bmx.SdCard
