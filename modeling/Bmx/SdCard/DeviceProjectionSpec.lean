import Bmx.SdCard.DeviceProjection

/-!
# What a device is told

A projection is made from the scopes, kinds, targets, modes, included patterns and optional flags of the rules.
The mode of a path is that of the first matcher for it, among all that the rules have.
-/

namespace Bmx.SdCard

open LayoutRule List

/-- The part of a rule that a device is told about. -/
def LayoutRule.policy (rule : LayoutRule) : LayoutRule where
  scope := rule.scope
  kind := rule.kind
  ordinal := 0
  target := rule.target
  mode := rule.mode
  «include» := rule.include
  optional := rule.optional

theorem collectMatchers_policy (rules : List LayoutRule) :
    collectMatchers (rules.map policy) = collectMatchers rules := by
  unfold collectMatchers
  rw [foldlM_map]
  rfl

theorem kernelTargetsUnchecked_policy (sources : List (Text × Text)) (rules : List LayoutRule) (board : Board)
    (includeOptional : Bool) :
    kernelTargetsUnchecked ⟨sources, rules.map policy⟩ board includeOptional =
      kernelTargetsUnchecked ⟨sources, rules⟩ board includeOptional := by
  unfold kernelTargetsUnchecked
  rw [filter_map, map_map]
  rfl

theorem deviceProjectionDocument_policy (sources : List (Text × Text)) (rules : List LayoutRule) :
    deviceProjectionDocument ⟨sources, rules.map policy⟩ = deviceProjectionDocument ⟨sources, rules⟩ := by
  unfold deviceProjectionDocument
  simp only [collectMatchers_policy, kernelTargetsUnchecked_policy, flatMap_map]
  rfl

/-- Layouts whose rules say the same to a device have one projection. -/
theorem deviceProjectionDocument_congr {layout edited : SdLayout}
    (h : edited.rules.map policy = layout.rules.map policy) :
    deviceProjectionDocument edited = deviceProjectionDocument layout := by
  have hedited := deviceProjectionDocument_policy layout.sources edited.rules
  rw [h, deviceProjectionDocument_policy] at hedited
  exact hedited.symm

def policyMatchers (rules : List LayoutRule) : List DeviceMatcher :=
  rules.flatMap fun rule => (ruleMatchers rule).toOption.getD []

/-- The matchers that have been seen, each key once. -/
structure Collects (collected : List ScopedMatcher) (seen : List DeviceMatcher) : Prop where
  distinct : (collected.map fun entry => entry.matcher.key).Nodup
  mem : ∀ matcher, matcher ∈ collected.map ScopedMatcher.matcher ↔ matcher ∈ seen

section

variable {collected next : List ScopedMatcher} {seen : List DeviceMatcher} {matcher : DeviceMatcher} {scope : Scope}

theorem DeviceMatcher.eq_of_key {first second : DeviceMatcher} (hkey : first.key = second.key)
    (hmode : first.mode = second.mode) : first = second := by
  cases first
  simp_all

theorem Collects.add (h : Collects collected seen) (hadd : addMatcher scope collected matcher = .ok next) :
    Collects next (seen ++ [matcher]) := by
  unfold addMatcher at hadd
  split at hadd
  · rename_i hfind
    rw [find?_eq_none] at hfind
    obtain rfl := ok_eq_ok.1 hadd
    constructor
    · rw [map_append, nodup_append]
      refine ⟨h.distinct, nodup_singleton _, fun key hkey other hother heq => ?_⟩
      obtain ⟨entry, hentry, rfl⟩ := mem_map.1 hkey
      simp only [map_cons, map_nil, mem_singleton] at hother
      exact hfind entry hentry (by simp [heq, hother])
    · intro other
      rw [map_append, mem_append, mem_append, h.mem]
      simp
  · rename_i previous hfind
    have hmem := mem_of_find?_eq_some hfind
    have hkey : previous.matcher.key = matcher.key := by simpa using find?_some hfind
    split_ifs at hadd with hmode
    rw [ne_eq, not_not] at hmode
    obtain rfl := ok_eq_ok.1 hadd
    have hprevious := DeviceMatcher.eq_of_key hkey hmode
    -- Only the entry with this key is written again, with the matcher that it has.
    have hsame : ∀ entry ∈ collected, (if entry.matcher.key = matcher.key then
        ⟨matcher, entry.boards ++ scope.boards⟩ else entry : ScopedMatcher).matcher = entry.matcher := by
      intro entry hentry
      split_ifs with hentryKey
      · have heq := inj_on_of_nodup_map h.distinct hentry hmem (hentryKey.trans hkey.symm)
        rw [heq, hprevious]
      · rfl
    constructor
    · rw [map_map]
      have hkeys := map_congr_left fun entry hentry => congrArg DeviceMatcher.key (hsame entry hentry)
      exact (hkeys ▸ h.distinct :)
    · intro other
      rw [map_map, Function.comp_def, map_congr_left hsame, mem_append, mem_singleton, h.mem]
      constructor
      · exact .inl
      · rintro (hother | rfl)
        · exact hother
        · rw [← h.mem, ← hprevious]
          exact mem_map_of_mem hmem

theorem Collects.addAll {matchers : List DeviceMatcher} (h : Collects collected seen)
    (hadd : matchers.foldlM (addMatcher scope) collected = .ok next) : Collects next (seen ++ matchers) := by
  induction matchers generalizing collected seen with
  | nil =>
    obtain rfl := pure_eq_ok.1 hadd
    rwa [append_nil]
  | cons matcher rest ih =>
    obtain ⟨middle, hmiddle, hrest⟩ := foldlM_cons_eq_ok.1 hadd
    have hall := ih (h.add hmiddle) hrest
    rwa [append_assoc] at hall

variable {rules : List LayoutRule}

theorem Collects.addRules (h : Collects collected seen)
    (hadd : rules.foldlM (fun matchers rule => do (← ruleMatchers rule).foldlM (addMatcher rule.scope) matchers) collected =
      .ok next) : Collects next (seen ++ policyMatchers rules) := by
  induction rules generalizing collected seen with
  | nil =>
    obtain rfl := pure_eq_ok.1 hadd
    rwa [policyMatchers, flatMap_nil, append_nil]
  | cons rule rest ih =>
    obtain ⟨middle, hmiddle, hrest⟩ := foldlM_cons_eq_ok.1 hadd
    obtain ⟨matchers, hmatchers, hmiddle⟩ := bind_eq_ok.1 hmiddle
    have hall := ih (h.addAll hmiddle) hrest
    have hrule : ((ruleMatchers rule).toOption.getD []) = matchers := by
      rw [hmatchers]
      rfl
    rw [policyMatchers, flatMap_cons, hrule, ← append_assoc]
    exact hall

theorem collectMatchers_collects (h : collectMatchers rules = .ok collected) :
    Collects collected (policyMatchers rules) := by
  have hnone : Collects [] [] := ⟨nodup_nil, fun matcher => by simp⟩
  exact hnone.addRules h

end

theorem MatcherKey.orderKey_injective : Function.Injective MatcherKey.orderKey := by
  intro first second h
  have hrank : Char.ofNat first.kind.rank = Char.ofNat second.kind.rank := by
    simpa [orderKey] using congrArg (fun key => key.head?) h
  have hkind : first.kind = second.kind := by
    cases hfirst : first.kind <;> cases hsecond : second.kind <;>
      first
        | rfl
        | (rw [hfirst, hsecond] at hrank
           exact absurd hrank (by decide))
  cases first
  simp_all [orderKey]

/-- The relation of matchers by which a device's list is sorted. -/
abbrev DeviceMatcher.le (first second : DeviceMatcher) : Prop := first.key.orderKey ≤ second.key.orderKey

instance : Std.Total DeviceMatcher.le := ⟨fun first second => le_total first.key.orderKey second.key.orderKey⟩

instance : IsTrans DeviceMatcher DeviceMatcher.le := ⟨fun _ _ _ => le_trans⟩

variable {matchers : List DeviceMatcher} {matcher : DeviceMatcher} {rules : List LayoutRule}

theorem mem_inOrder :
    matcher ∈ inOrder matchers ↔ matcher ∈ matchers := mem_insertionSort _

theorem pairwise_inOrder (matchers : List DeviceMatcher) : (inOrder matchers).Pairwise DeviceMatcher.le :=
  pairwise_insertionSort DeviceMatcher.le matchers

/-- The first of some matchers, of those that match a path. -/
structure IsFirst (matchers : List DeviceMatcher) (path : Text) (matcher : DeviceMatcher) : Prop where
  mem : matcher ∈ matchers
  matchesPath : matcher.key.matchesPath path
  le : ∀ other ∈ matchers, other.key.matchesPath path → matcher.le other

def OneEach (matchers : List DeviceMatcher) : Prop :=
  ∀ first ∈ matchers, ∀ second ∈ matchers, first.key = second.key → first = second

section

variable {matchers : List DeviceMatcher} {path : Text} {matcher other : DeviceMatcher}

theorem IsFirst.congr {others : List DeviceMatcher} (hsame : ∀ matcher, matcher ∈ others ↔ matcher ∈ matchers) :
    IsFirst others path matcher ↔ IsFirst matchers path matcher := by
  constructor
  · rintro ⟨hmem, hmatches, hle⟩
    exact ⟨(hsame matcher).1 hmem, hmatches, fun other hother => hle other ((hsame other).2 hother)⟩
  · rintro ⟨hmem, hmatches, hle⟩
    exact ⟨(hsame matcher).2 hmem, hmatches, fun other hother => hle other ((hsame other).1 hother)⟩

theorem IsFirst.unique (hone : OneEach matchers) (hfirst : IsFirst matchers path matcher)
    (hother : IsFirst matchers path other) : matcher = other := by
  apply hone matcher hfirst.mem other hother.mem
  apply MatcherKey.orderKey_injective
  exact le_antisymm (hfirst.le other hother.mem hother.matchesPath) (hother.le matcher hfirst.mem hfirst.matchesPath)

theorem isFirst_of_find? (h : (inOrder matchers).find? (fun matcher => matcher.key.matchesPath path) = some matcher) :
    IsFirst matchers path matcher := by
  obtain ⟨hmatches, before, after, hsplit, hbefore⟩ := find?_eq_some_iff_append.1 h
  refine ⟨mem_inOrder.1 (mem_of_find?_eq_some h), hmatches, fun other hother hotherMatches => ?_⟩
  have hsorted := pairwise_inOrder matchers
  rw [hsplit, pairwise_append, pairwise_cons] at hsorted
  have hmem := mem_inOrder.2 hother
  rw [hsplit, mem_append, mem_cons] at hmem
  rcases hmem with hmem | rfl | hmem
  · have hnot := hbefore other hmem
    rw [hotherMatches] at hnot
    cases hnot
  · exact le_refl _
  · exact hsorted.2.1.1 other hmem

theorem foldl_firstMatcher (best : DeviceMatcher) :
    ∃ winner, matchers.foldl
        (fun winner matcher =>
          match winner with
          | none => some matcher
          | some best => if matcher.key.before best.key then some matcher else some best) (some best) = some winner ∧
      winner ∈ best :: matchers ∧ ∀ other ∈ best :: matchers, winner.le other := by
  induction matchers generalizing best with
  | nil => exact ⟨best, rfl, mem_cons_self, by simp⟩
  | cons matcher rest ih =>
    rw [foldl_cons]
    dsimp only
    split_ifs with hbefore
    · obtain ⟨winner, hwinner, hmem, hle⟩ := ih matcher
      refine ⟨winner, hwinner, mem_cons_of_mem best hmem, fun other hother => ?_⟩
      rcases mem_cons.1 hother with rfl | hother
      · exact le_trans (hle matcher mem_cons_self) (le_of_lt hbefore)
      · exact hle other hother
    · obtain ⟨winner, hwinner, hmem, hle⟩ := ih best
      refine ⟨winner, hwinner, ?_, fun other hother => ?_⟩
      · grind
      · rcases mem_cons.1 hother with rfl | hother
        · exact hle _ mem_cons_self
        · rcases mem_cons.1 hother with rfl | hother
          · exact le_trans (hle best mem_cons_self) (not_lt.1 hbefore)
          · exact hle other (mem_cons_of_mem best hother)

/-- `firstMatcher` finds the least. -/
theorem firstMatcher_spec (h : matchers ≠ []) :
    ∃ winner, firstMatcher matchers = some winner ∧ winner ∈ matchers ∧ ∀ other ∈ matchers, winner.le other := by
  cases matchers with
  | nil => exact absurd rfl h
  | cons matcher rest => exact foldl_firstMatcher matcher

theorem isFirst_of_firstMatcher
    (h : firstMatcher (matchers.filter fun matcher => matcher.key.matchesPath path) = some matcher) :
    IsFirst matchers path matcher := by
  have hne : (matchers.filter fun matcher => matcher.key.matchesPath path) ≠ [] := by
    intro hnil
    rw [hnil] at h
    cases h
  obtain ⟨winner, hwinner, hmem, hle⟩ := firstMatcher_spec hne
  obtain rfl := Option.some.inj (h.symm.trans hwinner)
  obtain ⟨hmem, hmatches⟩ := mem_filter.1 hmem
  exact ⟨hmem, hmatches, fun other hother hotherMatches => hle other (mem_filter.2 ⟨hother, hotherMatches⟩)⟩

theorem exists_first (hmem : matcher ∈ matchers) (hmatches : matcher.key.matchesPath path) :
    ∃ first, firstMatcher (matchers.filter fun matcher => matcher.key.matchesPath path) = some first ∧
      IsFirst matchers path first := by
  have hfiltered : matcher ∈ matchers.filter fun matcher => matcher.key.matchesPath path :=
    mem_filter.2 ⟨hmem, hmatches⟩
  obtain ⟨winner, hwinner, -⟩ := firstMatcher_spec (ne_nil_of_mem hfiltered)
  exact ⟨winner, hwinner, isFirst_of_firstMatcher hwinner⟩

variable {values : List DeviceMatcher}

/-- An exact path says nothing where the first of the other matchers for it has its mode. -/
theorem saysNothing_iff (hone : OneEach values) :
    saysNothing values matcher ↔
      matcher.key.kind = .exactPath ∧
        ∃ winner, IsFirst (values.filter fun other => other.key ≠ matcher.key) matcher.key.value winner ∧
          winner.mode = matcher.mode := by
  have hfilter : (values.filter fun other => other.key ≠ matcher.key ∧ other.key.matchesPath matcher.key.value) =
      (values.filter fun other => other.key ≠ matcher.key).filter fun other => other.key.matchesPath matcher.key.value := by
    rw [filter_filter]
    congr 1
    simp [Bool.and_comm]
  have honeFiltered : OneEach (values.filter fun other => other.key ≠ matcher.key) := by
    intro first hfirst second hsecond
    exact hone first (mem_filter.1 hfirst).1 second (mem_filter.1 hsecond).1
  unfold saysNothing
  rw [hfilter, decide_eq_true_eq]
  apply and_congr_right
  intro _
  constructor
  · intro hany
    obtain ⟨winner, hwinner, hmode⟩ := (Option.any_eq_true _ _).1 hany
    exact ⟨winner, isFirst_of_firstMatcher hwinner, by simpa using hmode⟩
  · rintro ⟨winner, hfirst, hmode⟩
    obtain ⟨found, hfound, hfoundFirst⟩ := exists_first hfirst.mem hfirst.matchesPath
    rw [hfound, hfirst.unique honeFiltered hfoundFirst] at *
    simpa using hmode

/-- An exact path has no root and no suffix. -/
def ExactAlone (matchers : List DeviceMatcher) : Prop :=
  ∀ matcher ∈ matchers, matcher.key.kind = .exactPath → matcher.key = ⟨.exactPath, [], matcher.key.value, []⟩

theorem exactPath_matches {key : MatcherKey} (h : key = ⟨.exactPath, [], key.value, []⟩) :
    key.matchesPath path ↔ path = key.value := by
  rw [h]
  simp [MatcherKey.matchesPath]

/-- Leaving out what says nothing does not change the mode of a path. -/
theorem first_normalized (hone : OneEach values) (hexact : ExactAlone values) (hfirst : IsFirst values path matcher) :
    ∃ winner, IsFirst (values.filter fun matcher => !saysNothing values matcher) path winner ∧
      winner.mode = matcher.mode := by
  by_cases hnothing : saysNothing values matcher = true
  · obtain ⟨hkind, winner, hwinner, hmode⟩ := (saysNothing_iff hone).1 hnothing
    have hkey := hexact matcher hfirst.mem hkind
    obtain rfl := (exactPath_matches hkey).1 hfirst.matchesPath
    obtain ⟨hwinnerMem, hwinnerKey⟩ := mem_filter.1 hwinner.mem
    have hwinnerKept : saysNothing values winner = false := by
      by_contra hwinnerNothing
      rw [Bool.not_eq_false] at hwinnerNothing
      have hwinnerExact := hexact winner hwinnerMem ((saysNothing_iff hone).1 hwinnerNothing).1
      have hvalue := (exactPath_matches hwinnerExact).1 hwinner.matchesPath
      rw [hwinnerExact, hkey, hvalue] at hwinnerKey
      simp at hwinnerKey
    refine ⟨winner, ⟨?_, hwinner.matchesPath, fun other hother hotherMatches => ?_⟩, hmode⟩
    · rw [mem_filter, hwinnerKept]
      exact ⟨hwinnerMem, rfl⟩
    · obtain ⟨hotherMem, hotherKept⟩ := mem_filter.1 hother
      apply hwinner.le other _ hotherMatches
      rw [mem_filter]
      refine ⟨hotherMem, ?_⟩
      rw [decide_eq_true_eq]
      intro heq
      rw [hone other hotherMem matcher hfirst.mem heq, hnothing] at hotherKept
      cases hotherKept
  · rw [Bool.not_eq_true] at hnothing
    refine ⟨matcher, ⟨?_, hfirst.matchesPath, fun other hother => hfirst.le other (mem_filter.1 hother).1⟩, rfl⟩
    rw [mem_filter, hnothing]
    exact ⟨hfirst.mem, rfl⟩

theorem find?_normalized (hone : OneEach values) (hexact : ExactAlone values) {mode : Mode} :
    ((inOrder (values.filter fun matcher => !saysNothing values matcher)).find? fun matcher =>
        matcher.key.matchesPath path).map DeviceMatcher.mode = some mode ↔
      ∃ matcher, IsFirst values path matcher ∧ matcher.mode = mode := by
  have honeKept : OneEach (values.filter fun matcher => !saysNothing values matcher) := by
    intro first hfirst second hsecond
    exact hone first (mem_filter.1 hfirst).1 second (mem_filter.1 hsecond).1
  rw [Option.map_eq_some_iff]
  constructor
  · rintro ⟨found, hfound, hmode⟩
    have hfoundFirst := isFirst_of_find? hfound
    obtain ⟨first, -, hfirst⟩ := exists_first (mem_filter.1 hfoundFirst.mem).1 hfoundFirst.matchesPath
    obtain ⟨winner, hwinner, hwinnerMode⟩ := first_normalized hone hexact hfirst
    rw [hwinner.unique honeKept hfoundFirst] at hwinnerMode
    exact ⟨first, hfirst, hwinnerMode.symm.trans hmode⟩
  · rintro ⟨matcher, hfirst, hmode⟩
    obtain ⟨winner, hwinner, hwinnerMode⟩ := first_normalized hone hexact hfirst
    cases hfind : (inOrder (values.filter fun matcher => !saysNothing values matcher)).find? fun matcher =>
        matcher.key.matchesPath path with
    | none =>
      exact absurd hwinner.matchesPath (find?_eq_none.1 hfind winner (mem_inOrder.2 hwinner.mem))
    | some found =>
      rw [(isFirst_of_find? hfind).unique honeKept hwinner]
      exact ⟨winner, rfl, hwinnerMode.trans hmode⟩

end

theorem devicePattern_kind {pattern root : Text} {mode : Mode}
    (h : devicePattern pattern root mode = .ok matcher) : matcher.key.kind ≠ .exactPath ∧ matcher.mode = mode := by
  unfold devicePattern at h
  dsimp only at h
  split_ifs at h <;>
    (obtain rfl := ok_eq_ok.1 h
     exact ⟨nofun, rfl⟩)

theorem deviceMatcher_ok {rule : LayoutRule} (h : deviceMatcher rule = .ok matchers) (hmem : matcher ∈ matchers) :
    matcher.mode = rule.mode ∧ (matcher.key.kind = .exactPath → matcher.key = ⟨.exactPath, [], rule.target, []⟩) := by
  have hpattern : ∀ {pattern root : Text} {found : DeviceMatcher}, devicePattern pattern root rule.mode = .ok found →
      found.mode = rule.mode ∧ (found.key.kind = .exactPath → found.key = ⟨.exactPath, [], rule.target, []⟩) :=
    fun hfound => ⟨(devicePattern_kind hfound).2, fun hkind => absurd hkind (devicePattern_kind hfound).1⟩
  unfold deviceMatcher at h
  split_ifs at h
  · obtain rfl := ok_eq_ok.1 h
    rw [mem_singleton.1 hmem]
    exact ⟨rfl, nofun⟩
  · obtain ⟨pattern, -, hfound⟩ := exists_of_mem_right (mapM_eq_ok.1 h) hmem
    exact hpattern hfound
  · obtain ⟨found, hfound, h⟩ := bind_eq_ok.1 h
    obtain rfl := pure_eq_ok.1 h
    rw [mem_singleton.1 hmem]
    exact hpattern hfound
  · obtain ⟨found, hfound, h⟩ := bind_eq_ok.1 h
    obtain rfl := pure_eq_ok.1 h
    rw [mem_singleton.1 hmem]
    exact hpattern hfound
  · obtain rfl := ok_eq_ok.1 h
    rw [mem_singleton.1 hmem]
    exact ⟨rfl, fun _ => rfl⟩

theorem mem_policyMatchers :
    matcher ∈ policyMatchers rules ↔ ∃ rule ∈ rules, ∃ matchers, ruleMatchers rule = .ok matchers ∧ matcher ∈ matchers := by
  unfold policyMatchers
  rw [mem_flatMap]
  apply exists_congr
  intro rule
  apply and_congr_right
  cases ruleMatchers rule <;> simp [Except.toOption]

theorem ruleMatchers_mode {rule : LayoutRule} (h : ruleMatchers rule = .ok matchers) (hmem : matcher ∈ matchers) :
    matcher.mode = rule.mode := by
  unfold ruleMatchers at h
  split_ifs at h
  · cases h
    cases hmem
  · exact (deviceMatcher_ok h hmem).1

theorem policyMatchers_exactAlone (rules : List LayoutRule) : ExactAlone (policyMatchers rules) := by
  intro matcher hmem hkind
  obtain ⟨rule, -, matchers, hmatchers, hmem⟩ := mem_policyMatchers.1 hmem
  unfold ruleMatchers at hmatchers
  split_ifs at hmatchers with hnone
  · cases hmatchers
    cases hmem
  · have hkey := (deviceMatcher_ok hmatchers hmem).2 hkind
    rw [hkey]

theorem represented_of_collect {collected next : List ScopedMatcher}
    (h : rules.foldlM (fun matchers rule => do (← ruleMatchers rule).foldlM (addMatcher rule.scope) matchers) collected =
      .ok next) : ∀ rule ∈ rules, ∃ matchers, ruleMatchers rule = .ok matchers := by
  induction rules generalizing collected with
  | nil => exact fun rule hmem => absurd hmem not_mem_nil
  | cons first rest ih =>
    obtain ⟨middle, hmiddle, hrest⟩ := foldlM_cons_eq_ok.1 h
    obtain ⟨matchers, hmatchers, -⟩ := bind_eq_ok.1 hmiddle
    rintro rule (_ | ⟨_, hmem⟩)
    · exact ⟨matchers, hmatchers⟩
    · exact ih hrest rule hmem

/-- A projection that is accepted, by the matchers of the rules. -/
structure Projects (layout : SdLayout) (projection : DeviceProjection) (values : List DeviceMatcher) : Prop where
  represented : ∀ rule ∈ layout.rules, ∃ matchers, ruleMatchers rule = .ok matchers
  distinct : (values.map DeviceMatcher.key).Nodup
  mem : ∀ matcher, matcher ∈ values ↔ matcher ∈ policyMatchers layout.rules
  directories : projection.directories = (layout.rules.flatMap ruleDirectories).toFinset
  required : projection.required = fun board => (kernelTargetsUnchecked layout board false).toFinset
  all : projection.all = fun board => (kernelTargetsUnchecked layout board true).toFinset
  rules : projection.rules = inOrder (values.filter fun matcher => !saysNothing values matcher)

section

variable {layout : SdLayout} {projection : DeviceProjection} {values : List DeviceMatcher}

theorem deviceProjectionDocument_ok (h : deviceProjectionDocument layout = .ok projection) :
    ∃ values, Projects layout projection values := by
  obtain ⟨collected, hcollected, h⟩ := bind_eq_ok.1 h
  obtain ⟨_, -, h⟩ := bind_eq_ok.1 h
  obtain rfl := pure_eq_ok.1 h
  have hcollects := collectMatchers_collects hcollected
  refine ⟨collected.map ScopedMatcher.matcher, represented_of_collect hcollected, ?_, hcollects.mem, rfl, rfl, rfl, rfl⟩
  rw [map_map]
  exact hcollects.distinct

theorem Projects.oneEach (h : Projects layout projection values) : OneEach values := fun _ hfirst _ hsecond =>
  inj_on_of_nodup_map h.distinct hfirst hsecond

theorem Projects.exactAlone (h : Projects layout projection values) : ExactAlone values := fun matcher hmem =>
  policyMatchers_exactAlone layout.rules matcher ((h.mem matcher).1 hmem)

/-- The mode that a device has for a path: kernels go first, and then the first matcher. -/
theorem deviceModeFromProjection_eq_some (h : Projects layout projection values) {path : Text} {mode : Mode} :
    deviceModeFromProjection layout projection path = some mode ↔
      if ∃ board ∈ boards, path ∈ kernelTargetsUnchecked layout board true then mode = .kernel
      else ∃ matcher, IsFirst (policyMatchers layout.rules) path matcher ∧ matcher.mode = mode := by
  have hkernel : (boards.any fun board => (kernelTargetsUnchecked layout board true).contains path) = true ↔
      ∃ board ∈ boards, path ∈ kernelTargetsUnchecked layout board true := by
    simp
  unfold deviceModeFromProjection
  split_ifs with hany hexists hexists
  · simp [eq_comm]
  · exact absurd (hkernel.1 hany) hexists
  · exact absurd (hkernel.2 hexists) hany
  · rw [h.rules, find?_normalized h.oneEach h.exactAlone]
    simp only [IsFirst.congr h.mem]

end

end Bmx.SdCard
