import Bmx.SdCard.DeviceProjectionSpec

/-!
# What rules say of a path

The policy that a device has, read from the rules and without a projection. A rule speaks of one path, of
names by a pattern, or of everything below a top-level directory, and the rule that speaks most narrowly
decides.
-/

namespace Bmx.SdCard

open List

/-- How narrowly a rule speaks of a path. -/
structure Narrowness where
  rank : Nat
  root : Text := []
  value : Text := []
  suffix : Text := []

/-- One speaks at least as narrowly as the other. Where they do so in the same way, the texts decide. -/
def Narrowness.Precedes (first second : Narrowness) : Prop :=
  first.rank < second.rank ∨ first.rank = second.rank ∧
    (first.root < second.root ∨ first.root = second.root ∧
      (first.value < second.value ∨ first.value = second.value ∧ first.suffix ≤ second.suffix))

/-- The path is, or is below, this top-level directory. -/
def IsBelow (root path : Text) : Prop := '/' ∉ root ∧ (path = root ∨ ∃ rest, path = root ++ '/' :: rest)

/-- The last part of the path. -/
def IsName (name path : Text) : Prop := '/' ∉ name ∧ (path = name ∨ ∃ directory, path = directory ++ '/' :: name)

/-- A pattern speaks of the path, by its name. It has a star at most. -/
inductive PatternSpeaks (root pattern path : Text) : Narrowness → Prop
  | name (hplain : '*' ∉ pattern) (hname : IsName pattern path) :
      PatternSpeaks root pattern path { rank := 1, root := root, value := pattern }
  | ends {front suffix name : Text} (hpattern : pattern = front ++ '*' :: suffix) (hplain : '*' ∉ front)
      (hfront : front ≠ []) (hname : IsName name path) (hbegins : front <+: name) (hends : suffix <:+ name) :
      PatternSpeaks root pattern path { rank := 2, root := root, value := front, suffix := suffix }
  | suffix {suffix name : Text} (hpattern : pattern = '*' :: suffix) (hname : IsName name path)
      (hends : suffix <:+ name) : PatternSpeaks root pattern path { rank := 3, root := root, suffix := suffix }

/-- A rule speaks of the path. An empty root is every directory. -/
inductive LayoutRule.Speaks (rule : LayoutRule) (path : Text) : Narrowness → Prop
  | path (hkind : rule.kind = .file) (hplain : '*' ∉ rule.target ∧ '?' ∉ rule.target) (hpath : path = rule.target) :
      Speaks rule path { rank := 0, value := path }
  | anywhere {pattern : Text} {narrowness : Narrowness} (hkind : rule.kind = .file)
      (htarget : rule.target = textOf "**/" ++ pattern) (hspeaks : PatternSpeaks [] pattern path narrowness) :
      Speaks rule path narrowness
  | named {narrowness : Narrowness} (hkind : rule.kind = .file) (hplain : ¬ textOf "**/" <+: rule.target)
      (hwild : '*' ∈ rule.target ∨ '?' ∈ rule.target) (hspeaks : PatternSpeaks [] rule.target path narrowness) :
      Speaks rule path narrowness
  | tree {root : Text} (hkind : rule.kind = .tree) (hall : rule.include = []) (hroot : IsBelow root rule.target)
      (hpath : root = [] ∨ IsBelow root path) : Speaks rule path { rank := 4, root := root }
  | member {root pattern : Text} {narrowness : Narrowness} (hkind : rule.kind = .tree) (hroot : IsBelow root rule.target)
      (hpattern : pattern ∈ rule.include) (hpath : root = [] ∨ IsBelow root path)
      (hspeaks : PatternSpeaks root pattern path narrowness) : Speaks rule path narrowness

/-- Of all the rules that say something of the path to a device, the one that speaks most narrowly has this mode.
A kernel is no part of the policy. -/
def PolicyAgrees (layout : SdLayout) (mode : Mode) (path : Text) : Prop :=
  ∃ rule ∈ layout.rules, ∃ narrowness, rule.mode = mode ∧ mode ≠ .kernel ∧ rule.Speaks path narrowness ∧
    ∀ other ∈ layout.rules, other.mode ≠ .kernel → ∀ wider, other.Speaks path wider → narrowness.Precedes wider

/-! ### The matchers of a rule -/

def MatcherKey.narrowness (key : MatcherKey) : Narrowness := ⟨key.kind.rank, key.root, key.value, key.suffix⟩

/-- A matcher is asked before another where it is as narrow. -/
theorem orderKey_le_iff (first second : MatcherKey) :
    first.orderKey ≤ second.orderKey ↔ first.narrowness.Precedes second.narrowness := by
  have hrank : ∀ first second : MatcherKind,
      ([Char.ofNat first.rank] < [Char.ofNat second.rank] ↔ first.rank < second.rank) ∧
        ([Char.ofNat first.rank] = [Char.ofNat second.rank] ↔ first.rank = second.rank) := by
    intro first second
    cases first <;> cases second <;> decide
  unfold MatcherKey.orderKey Narrowness.Precedes MatcherKey.narrowness
  rw [le_iff_lt_or_eq (a := first.suffix), le_iff_lt_or_eq]
  simp only [cons_lt_cons_iff, cons.injEq, (hrank _ _).1, (hrank _ _).2, not_lt_nil, and_false, or_false, and_true]
  tauto

section

variable {root path name pattern : Text} {matcher : DeviceMatcher} {mode : Mode} {narrowness : Narrowness}

theorem isBelow_iff : IsBelow root path ↔ topRoot path = root := by
  unfold IsBelow topRoot
  constructor
  · rintro ⟨hroot, hpath⟩
    have hall : ∀ character ∈ root, decide (character ≠ '/') = true := by
      intro character hmem
      apply decide_eq_true
      rintro rfl
      exact hroot hmem
    rcases hpath with rfl | ⟨rest, rfl⟩
    · exact takeWhile_eq_self_iff.2 hall
    · rw [takeWhile_append_of_pos hall]
      simp
  · rintro rfl
    constructor
    · intro hmem
      simpa using mem_takeWhile_imp hmem
    · have hsplit := takeWhile_append_dropWhile (p := fun character => decide (character ≠ '/')) (l := path)
      cases hrest : path.dropWhile fun character => decide (character ≠ '/') with
      | nil =>
        rw [hrest, append_nil] at hsplit
        exact .inl hsplit.symm
      | cons character rest =>
        have hne : path.dropWhile (fun character => decide (character ≠ '/')) ≠ [] := by
          rw [hrest]
          exact cons_ne_nil _ _
        have hslash := head_dropWhile_not (fun character => decide (character ≠ '/')) hne
        simp only [hrest, head_cons, decide_eq_false_iff_not, not_not] at hslash
        rw [hrest, hslash] at hsplit
        exact .inr ⟨rest, hsplit.symm⟩

theorem isName_iff : IsName name path ↔ basename path = name := by
  have hbelow := @isBelow_iff name.reverse path.reverse
  unfold IsBelow topRoot at hbelow
  unfold IsName basename
  rw [reverse_eq_iff, ← hbelow, mem_reverse]
  apply and_congr_right
  intro _
  rw [reverse_inj]
  apply or_congr_right
  constructor
  · rintro ⟨directory, rfl⟩
    exact ⟨directory.reverse, by simp⟩
  · rintro ⟨rest, hrest⟩
    refine ⟨rest.reverse, ?_⟩
    rw [← reverse_inj, hrest]
    simp

theorem matchesPath_iff (key : MatcherKey) (path : Text) : key.matchesPath path = true ↔
    (key.root = [] ∨ IsBelow key.root path) ∧
      match key.kind with
      | .exactPath => path = key.value
      | .topRoot => True
      | .basenameExact => IsName key.value path
      | .basenameSuffix => ∃ name, IsName name path ∧ key.suffix <:+ name
      | .basenamePrefixSuffix => ∃ name, IsName name path ∧ key.value <+: name ∧ key.suffix <:+ name := by
  have hroot : (key.root = [] ∨ IsBelow key.root path) ↔ ¬(key.root ≠ [] ∧ topRoot path ≠ key.root) := by
    rw [isBelow_iff]
    tauto
  unfold MatcherKey.matchesPath
  rw [hroot]
  split_ifs with houtside
  · simp [houtside]
  · rw [and_iff_right houtside]
    cases key.kind <;> simp [isName_iff, isPrefixOf_iff_prefix, isSuffixOf_iff_suffix]

theorem star_split {front suffix : Text} (hplain : '*' ∉ front) :
    (front ++ '*' :: suffix).takeWhile (· ≠ '*') = front ∧
      ((front ++ '*' :: suffix).dropWhile (· ≠ '*')).drop 1 = suffix := by
  have hall : ∀ character ∈ front, decide (character ≠ '*') = true := by
    intro character hmem
    apply decide_eq_true
    rintro rfl
    exact hplain hmem
  rw [takeWhile_append_of_pos hall, dropWhile_append_of_pos hall]
  simp

/-- The matcher of a pattern matches where the pattern speaks, and is as narrow. -/
theorem devicePattern_speaks (h : devicePattern pattern root mode = .ok matcher) :
    matcher.key.matchesPath path = true ∧ matcher.key.narrowness = narrowness ↔
      (root = [] ∨ IsBelow root path) ∧ PatternSpeaks root pattern path narrowness := by
  unfold devicePattern at h
  dsimp only at h
  split at h
  · cases h
  split at h
  · rename_i hstar
    obtain rfl := ok_eq_ok.1 h
    rw [matchesPath_iff, and_assoc]
    apply and_congr_right
    intro _
    constructor
    · rintro ⟨hname, rfl⟩
      exact .name hstar hname
    · intro hspeaks
      cases hspeaks with
      | name hplain hname => exact ⟨hname, rfl⟩
      | ends hpattern | suffix hpattern =>
        rw [hpattern] at hstar
        simp at hstar
  rename_i hstar
  rw [not_not] at hstar
  obtain ⟨front, suffix, rfl, hplain⟩ := eq_append_cons_of_mem hstar
  obtain ⟨htake, hdrop⟩ := @star_split _ suffix hplain
  rw [htake, hdrop] at h
  have hstars : ∀ front' suffix' : Text, front ++ '*' :: suffix = front' ++ '*' :: suffix' → '*' ∉ front' →
      front' = front ∧ suffix' = suffix := by
    intro front' suffix' hsame hnone
    obtain ⟨htake', hdrop'⟩ := @star_split _ suffix' hnone
    rw [← hsame] at htake' hdrop'
    exact ⟨htake'.symm.trans htake, hdrop'.symm.trans hdrop⟩
  have hpresent : ¬ '*' ∉ front ++ '*' :: suffix := not_not.2 hstar
  split at h
  all_goals
    rename_i hfront
    obtain rfl := ok_eq_ok.1 h
    rw [matchesPath_iff, and_assoc]
    apply and_congr_right
    intro _
    constructor
  · rintro ⟨⟨name, hname, hends⟩, rfl⟩
    exact .suffix (by rw [hfront]; rfl) hname hends
  · intro hspeaks
    generalize hwhole : front ++ '*' :: suffix = whole at hspeaks
    cases hspeaks with
    | name hnone hname => exact absurd (hwhole ▸ hnone) hpresent
    | ends hpattern hnone hbegins => exact absurd ((hstars _ _ (hwhole.trans hpattern) hnone).1.trans hfront) hbegins
    | suffix hpattern hname hends =>
      obtain ⟨-, rfl⟩ := hstars [] _ (hwhole.trans hpattern) not_mem_nil
      exact ⟨⟨_, hname, hends⟩, rfl⟩
  · rintro ⟨⟨name, hname, hbegins, hends⟩, rfl⟩
    exact .ends rfl hplain hfront hname hbegins hends
  · intro hspeaks
    generalize hwhole : front ++ '*' :: suffix = whole at hspeaks
    cases hspeaks with
    | name hnone hname => exact absurd (hwhole ▸ hnone) hpresent
    | ends hpattern hnone hbegins hname hfirst hlast =>
      obtain ⟨rfl, rfl⟩ := hstars _ _ (hwhole.trans hpattern) hnone
      exact ⟨⟨_, hname, hfirst, hlast⟩, rfl⟩
    | suffix hpattern hname hends =>
      exact absurd (hstars [] _ (hwhole.trans hpattern) not_mem_nil).1.symm hfront

/-- The matchers of a rule match where the rule speaks, and are as narrow. -/
theorem ruleMatchers_speaks {rule : LayoutRule} {matchers : List DeviceMatcher} (h : ruleMatchers rule = .ok matchers) :
    (∃ matcher ∈ matchers, matcher.key.matchesPath path = true ∧ matcher.key.narrowness = narrowness) ↔
      rule.mode ≠ .kernel ∧ rule.Speaks path narrowness := by
  unfold ruleMatchers at h
  split at h
  · rename_i hnone
    obtain rfl := ok_eq_ok.1 h
    simp only [not_mem_nil, false_and, exists_false, false_iff, not_and]
    intro hmode hspeaks
    have hkind := hnone.resolve_right hmode
    cases hspeaks with
    | path hother | anywhere hother | named hother | tree hother | member hother => cases hkind.symm.trans hother
  rename_i hsome
  rw [not_or] at hsome
  rw [and_iff_right hsome.2]
  unfold deviceMatcher at h
  split at h
  · rename_i hkind
    split at h
    · rename_i hall
      obtain rfl := ok_eq_ok.1 h
      simp only [mem_singleton, exists_eq_left, matchesPath_iff, and_true]
      constructor
      · rintro ⟨hpath, rfl⟩
        exact .tree hkind hall (isBelow_iff.2 rfl) hpath
      · intro hspeaks
        cases hspeaks with
        | path hother | anywhere hother | named hother => cases hkind.symm.trans hother
        | tree _ _ hroot hpath =>
          rw [isBelow_iff.1 hroot]
          exact ⟨hpath, rfl⟩
        | member _ _ hpattern =>
          rw [hall] at hpattern
          cases hpattern
    · rename_i hsome
      have hmap := mapM_eq_ok.1 h
      constructor
      · rintro ⟨matcher, hmem, hmatches⟩
        obtain ⟨pattern, hpattern, hfound⟩ := exists_of_mem_right hmap hmem
        obtain ⟨hpath, hspeaks⟩ := (devicePattern_speaks hfound).1 hmatches
        exact .member hkind (isBelow_iff.2 rfl) hpattern hpath hspeaks
      · intro hspeaks
        cases hspeaks with
        | path hother | anywhere hother | named hother => cases hkind.symm.trans hother
        | tree _ hall => exact absurd hall hsome
        | member _ hroot hpattern hpath hspeaks =>
          obtain ⟨matcher, hmem, hfound⟩ := exists_of_mem_right hmap.flip hpattern
          refine ⟨matcher, hmem, (devicePattern_speaks hfound).2 ?_⟩
          rw [isBelow_iff.1 hroot]
          exact ⟨hpath, hspeaks⟩
  rename_i hkind
  have hfile : rule.kind = .file := by
    cases hcase : rule.kind with
    | file => rfl
    | tree => exact absurd hcase hkind
    | directory => exact absurd hcase hsome.1
  have hprefix : textOf "**/" <+: rule.target ↔ rule.target.take 3 = textOf "**/" := by
    rw [prefix_iff_eq_take]
    exact eq_comm
  split at h
  · rename_i hanywhere
    obtain ⟨found, hfound, h⟩ := bind_eq_ok.1 h
    obtain rfl := pure_eq_ok.1 h
    have hsplit : rule.target = textOf "**/" ++ rule.target.drop 3 := by
      rw [← hanywhere, take_append_drop]
    simp only [mem_singleton, exists_eq_left, devicePattern_speaks hfound, true_or, true_and]
    constructor
    · exact .anywhere hfile hsplit
    · intro hspeaks
      cases hspeaks with
      | path _ hplain =>
        rw [hsplit] at hplain
        exact absurd mem_cons_self hplain.1
      | anywhere _ htarget hspeaks =>
        rw [htarget]
        exact hspeaks
      | named _ hplain => exact absurd ( hprefix.2 hanywhere) hplain
      | tree hother | member hother => exact absurd hother hkind
  split at h
  · rename_i hplain hwild
    obtain ⟨found, hfound, h⟩ := bind_eq_ok.1 h
    obtain rfl := pure_eq_ok.1 h
    simp only [mem_singleton, exists_eq_left, devicePattern_speaks hfound, true_or, true_and]
    constructor
    · exact .named hfile (mt hprefix.1 hplain) hwild
    · intro hspeaks
      cases hspeaks with
      | path _ hnone => exact absurd hwild (not_or.2 hnone)
      | anywhere _ htarget => exact absurd ( hprefix.1 ⟨_, htarget.symm⟩) hplain
      | named _ _ _ hspeaks => exact hspeaks
      | tree hother | member hother => exact absurd hother hkind
  · rename_i hplain hexact
    obtain rfl := ok_eq_ok.1 h
    rw [not_or] at hexact
    simp only [mem_singleton, exists_eq_left, matchesPath_iff, true_or, true_and]
    constructor
    · rintro ⟨hpath, rfl⟩
      rw [← hpath]
      exact .path hfile hexact hpath
    · intro hspeaks
      cases hspeaks with
      | path _ _ hpath => exact ⟨hpath, by rw [hpath]; rfl⟩
      | anywhere _ htarget => exact absurd ( hprefix.1 ⟨_, htarget.symm⟩) hplain
      | named _ _ hwild => exact absurd hwild (not_or.2 hexact)
      | tree hother | member hother => exact absurd hother hkind

variable {layout : SdLayout} {projection : DeviceProjection} {values : List DeviceMatcher}

/-- The rule that speaks most narrowly is that of the first matcher. -/
theorem policyAgrees_iff (hrepresented : ∀ rule ∈ layout.rules, ∃ matchers, ruleMatchers rule = .ok matchers) :
    PolicyAgrees layout mode path ↔
      ∃ matcher, IsFirst (policyMatchers layout.rules) path matcher ∧ matcher.mode = mode := by
  constructor
  · rintro ⟨rule, hrule, narrowness, rfl, hmode, hspeaks, hfirst⟩
    obtain ⟨matchers, hmatchers⟩ := hrepresented rule hrule
    obtain ⟨matcher, hmem, hmatches, rfl⟩ := (ruleMatchers_speaks hmatchers).2 ⟨hmode, hspeaks⟩
    refine ⟨matcher, ⟨mem_policyMatchers.2 ⟨rule, hrule, matchers, hmatchers, hmem⟩, hmatches, ?_⟩,
      ruleMatchers_mode hmatchers hmem⟩
    intro other hother hotherMatches
    obtain ⟨otherRule, hotherRule, others, hothers, hmemOther⟩ := mem_policyMatchers.1 hother
    obtain ⟨hotherMode, hotherSpeaks⟩ := (ruleMatchers_speaks hothers).1 ⟨other, hmemOther, hotherMatches, rfl⟩
    exact (orderKey_le_iff _ _).2 (hfirst otherRule hotherRule hotherMode _ hotherSpeaks)
  · rintro ⟨matcher, ⟨hmem, hmatches, hle⟩, rfl⟩
    obtain ⟨rule, hrule, matchers, hmatchers, hmem⟩ := mem_policyMatchers.1 hmem
    obtain ⟨hmode, hspeaks⟩ := (ruleMatchers_speaks hmatchers).1 ⟨matcher, hmem, hmatches, rfl⟩
    have hsame := ruleMatchers_mode hmatchers hmem
    refine ⟨rule, hrule, _, hsame.symm, hsame ▸ hmode, hspeaks, ?_⟩
    intro other hother hotherMode wider hwider
    obtain ⟨others, hothers⟩ := hrepresented other hother
    obtain ⟨loser, hloser, hloserMatches, rfl⟩ := (ruleMatchers_speaks hothers).2 ⟨hotherMode, hwider⟩
    have hlist := mem_policyMatchers.2 ⟨other, hother, others, hothers, hloser⟩
    exact (orderKey_le_iff _ _).1 (hle loser hlist hloserMatches)

end

end Bmx.SdCard
