import Bmx.SdCard.Validation

/-!
# What a loaded layout keeps

The rules of a loaded layout are read one by one, and each has been checked by itself.
-/

namespace Bmx.SdCard

open List

/-- What is staged has exact targets, and no two fields of a rule contradict each other. -/
structure LayoutRule.Checked (rule : LayoutRule) : Prop where
  target : rule.kind ≠ .file ∨ rule.source.isSome → FatSafe rule.target
  movePi4 : ∀ target, rule.reviewMovePi4 = some target → FatSafe target
  movePi5 : ∀ target, rule.reviewMovePi5 = some target → FatSafe target
  conflict : ruleConflict rule = none

variable {value : TomlTable} {place : String} {kind : RuleKind} {target : Text} {aliases : List Text}
  {scope : Scope} {ordinal : Nat} {rule : LayoutRule} {document : TomlValue} {layout : SdLayout}

theorem readTarget_safe {source : Option Text}
    (h : readTarget value place kind source = .ok target) (hstaged : kind ≠ .file ∨ source.isSome) : FatSafe target := by
  obtain ⟨written, -, hchecked⟩ := bind_eq_ok.1 h
  have hexact : ¬(kind = .file ∧ source.isNone) := by
    rintro ⟨hkind, hnone⟩
    rcases hstaged with hstaged | hstaged
    · exact hstaged hkind
    · simp_all
  rw [if_neg hexact] at hchecked
  obtain ⟨hsafe, rfl⟩ := fatPath_eq_ok.1 hchecked
  exact hsafe

theorem readMove_safe {name : String} {moved : Option Text}
    (h : readMove value place name = .ok moved) (htarget : moved = some target) : FatSafe target := by
  unfold readMove at h
  cases hfield : value.field name with
  | none =>
    rw [hfield] at h
    cases h
    cases htarget
  | some written =>
    rw [hfield] at h
    obtain ⟨text, -, h⟩ := bind_eq_ok.1 h
    obtain ⟨safe, hsafe, h⟩ := bind_eq_ok.1 h
    obtain rfl := pure_eq_ok.1 h
    cases htarget
    obtain ⟨hsafe, rfl⟩ := fatPath_eq_ok.1 hsafe
    exact hsafe

theorem readRule_ok (h : readRule value aliases scope kind ordinal place = .ok rule) :
    rule.provenance = ⟨scope, kind, ordinal⟩ ∧
      (rule.kind ≠ .file ∨ rule.source.isSome → FatSafe rule.target) ∧
      (∀ target, rule.reviewMovePi4 = some target → FatSafe target) ∧
      ∀ target, rule.reviewMovePi5 = some target → FatSafe target := by
  unfold readRule at h
  simp only [bind_eq_ok, pure_eq_ok] at h
  obtain ⟨mode, -, source, -, target, htarget, included, -, excluded, -, profiles, -, features, -, optional, -, enabled, -,
    reportMissing, -, disabled, -, excludedPi4, -, excludedPi5, -, movedPi4, hmovedPi4, movedPi5, hmovedPi5, rfl⟩ := h
  exact ⟨rfl, readTarget_safe htarget, fun _ => readMove_safe hmovedPi4, fun _ => readMove_safe hmovedPi5⟩

theorem parseRule_ok {raw : TomlValue} (h : parseRule raw aliases scope kind ordinal = .ok rule) :
    rule.provenance = ⟨scope, kind, ordinal⟩ ∧ rule.Checked := by
  obtain ⟨value, -, h⟩ := bind_eq_ok.1 h
  obtain ⟨read, hread, h⟩ := bind_eq_ok.1 h
  cases hconflict : ruleConflict read with
  | some conflict =>
    rw [hconflict] at h
    cases h
  | none =>
    rw [hconflict] at h
    obtain rfl := pure_eq_ok.1 h
    obtain ⟨hplace, htarget, hmovePi4, hmovePi5⟩ := readRule_ok hread
    exact ⟨hplace, htarget, hmovePi4, hmovePi5, hconflict⟩

/-- Rules that are told apart by their provenance. -/
def Distinct (rules : List LayoutRule) : Prop := (rules.map LayoutRule.provenance).Nodup

theorem Distinct.append {first second : List LayoutRule} (hfirst : Distinct first) (hsecond : Distinct second)
    (hapart : ∀ rule ∈ first, ∀ other ∈ second, rule.provenance ≠ other.provenance) : Distinct (first ++ second) := by
  unfold Distinct at *
  rw [map_append, nodup_append]
  refine ⟨hfirst, hsecond, fun provenance hmem other hother => ?_⟩
  obtain ⟨rule, hrule, rfl⟩ := mem_map.1 hmem
  obtain ⟨second, hsecond, rfl⟩ := mem_map.1 hother
  exact hapart rule hrule second hsecond

section

variable {aliases : List Text} {scope : Scope} {kind : RuleKind} {rules : List LayoutRule}

theorem readSection_ok {table : TomlTable} (h : readSection table aliases scope kind = .ok rules) :
    Distinct rules ∧ ∀ rule ∈ rules, rule.Checked ∧ rule.scope = scope ∧ rule.kind = kind := by
  unfold readSection at h
  split at h
  · rename_i entries _
    have hall := mapM_eq_ok.1 h
    have hplaces : rules.map LayoutRule.provenance = entries.zipIdx.map fun entry => ⟨scope, kind, entry.2⟩ := by
      apply map_eq_of_forall₂ _ hall
      intro entry rule hparsed
      exact (parseRule_ok hparsed).1
    constructor
    · have hnumbers : (entries.zipIdx.map fun entry => (⟨scope, kind, entry.2⟩ : RuleProvenance)) =
          (entries.zipIdx.map Prod.snd).map fun ordinal => ⟨scope, kind, ordinal⟩ := by
        rw [map_map]
        rfl
      unfold Distinct
      rw [hplaces, hnumbers, zipIdx_map_snd]
      apply List.Nodup.map
      · intro first second heq
        exact congrArg RuleProvenance.ordinal heq
      · exact nodup_range'
    · intro rule hrule
      obtain ⟨entry, -, hparsed⟩ := exists_of_mem_right hall hrule
      obtain ⟨hplace, hchecked⟩ := parseRule_ok hparsed
      exact ⟨hchecked, congrArg RuleProvenance.scope hplace, congrArg RuleProvenance.kind hplace⟩
  · cases h

theorem groups_ok {β : Type} {field : RuleProvenance → β} {P : LayoutRule → Prop} {a b c : β}
    {first second third : List LayoutRule} (hdiffer : a ≠ b ∧ a ≠ c ∧ b ≠ c)
    (hfirst : Distinct first ∧ ∀ rule ∈ first, P rule ∧ field rule.provenance = a)
    (hsecond : Distinct second ∧ ∀ rule ∈ second, P rule ∧ field rule.provenance = b)
    (hthird : Distinct third ∧ ∀ rule ∈ third, P rule ∧ field rule.provenance = c) :
    Distinct (first ++ (second ++ third)) ∧ ∀ rule ∈ first ++ (second ++ third), P rule := by
  obtain ⟨hab, hac, hbc⟩ := hdiffer
  simp only [mem_append, or_imp, forall_and]
  refine ⟨hfirst.1.append (hsecond.1.append hthird.1 fun rule hrule other hother heq => ?_)
    fun rule hrule other hother heq => ?_, fun rule hrule => (hfirst.2 rule hrule).1,
    fun rule hrule => (hsecond.2 rule hrule).1, fun rule hrule => (hthird.2 rule hrule).1⟩
  · exact hbc ((hsecond.2 rule hrule).2.symm.trans (heq ▸ (hthird.2 other hother).2))
  · rcases mem_append.1 hother with hother | hother
    · exact hab ((hfirst.2 rule hrule).2.symm.trans (heq ▸ (hsecond.2 other hother).2))
    · exact hac ((hfirst.2 rule hrule).2.symm.trans (heq ▸ (hthird.2 other hother).2))

theorem readScope_ok {top : TomlTable} (h : readScope top aliases scope = .ok rules) :
    Distinct rules ∧ ∀ rule ∈ rules, rule.Checked ∧ rule.scope = scope := by
  unfold readScope at h
  split at h
  · split at h
    · cases h
    · simp only [bind_eq_ok, pure_eq_ok, mapM_cons, mapM_nil] at h
      obtain ⟨_, ⟨files, hfiles, _, ⟨trees, htrees, _, ⟨directories, hdirectories, _, rfl, rfl⟩, rfl⟩, rfl⟩, rfl⟩ := h
      simp only [flatten_cons, flatten_nil, append_nil]
      have hgroup {kind : RuleKind} {group : List LayoutRule}
          (h : Distinct group ∧ ∀ rule ∈ group, rule.Checked ∧ rule.scope = scope ∧ rule.kind = kind) :
          Distinct group ∧ ∀ rule ∈ group, (rule.Checked ∧ rule.scope = scope) ∧ rule.provenance.kind = kind :=
        ⟨h.1, fun rule hrule => and_assoc.2 (h.2 rule hrule)⟩
      exact groups_ok (by decide) (hgroup (readSection_ok hfiles)) (hgroup (readSection_ok htrees))
        (hgroup (readSection_ok hdirectories))
  · cases h

end

theorem readLayout_ok (h : readLayout document = .ok layout) :
    Distinct layout.rules ∧ ∀ rule ∈ layout.rules, rule.Checked := by
  obtain ⟨top, -, h⟩ := bind_eq_ok.1 h
  split at h
  · cases h
  · split at h
    · cases h
    · split at h
      · simp only [bind_eq_ok, scopes, mapM_cons, mapM_nil, pure_eq_ok] at h
        obtain ⟨sources, -, _, ⟨shared, hshared, _, ⟨pi4, hpi4, _, ⟨pi5, hpi5, _, rfl, rfl⟩, rfl⟩, rfl⟩, h⟩ := h
        split at h
        · cases h
        · obtain rfl := pure_eq_ok.1 h
          simp only [flatten_cons, flatten_nil, append_nil]
          have hgroup {scope : Scope} {group : List LayoutRule}
              (h : Distinct group ∧ ∀ rule ∈ group, rule.Checked ∧ rule.scope = scope) :
              Distinct group ∧ ∀ rule ∈ group, rule.Checked ∧ rule.provenance.scope = scope := h
          exact groups_ok (by decide) (hgroup (readScope_ok hshared)) (hgroup (readScope_ok hpi4))
            (hgroup (readScope_ok hpi5))
      · cases h

theorem validatedLayout_ok {validated : SdLayout} :
    validatedLayout layout = .ok validated ↔
      validateStaticLayout layout = .ok () ∧ validateDeviceModeConsistency layout = .ok () ∧ validated = layout := by
  unfold validatedLayout
  simp only [bind_eq_ok, pure_eq_ok]
  constructor
  · rintro ⟨⟨⟩, hstatic, ⟨⟩, hmodes, hvalidated⟩
    exact ⟨hstatic, hmodes, hvalidated⟩
  · rintro ⟨hstatic, hmodes, hvalidated⟩
    exact ⟨(), hstatic, (), hmodes, hvalidated⟩

theorem loadSdLayout_ok (h : loadSdLayout document = .ok layout) :
    readLayout document = .ok layout ∧ validateStaticLayout layout = .ok () ∧
      validateDeviceModeConsistency layout = .ok () := by
  obtain ⟨read, hread, hvalidated⟩ := bind_eq_ok.1 h
  obtain ⟨hstatic, hmodes, rfl⟩ := validatedLayout_ok.1 hvalidated
  exact ⟨hread, hstatic, hmodes⟩

theorem kernel_atTop (h : validateStaticLayout layout = .ok ()) {board : Board}
    (htarget : target ∈ kernelTargetsUnchecked layout board true) : '/' ∉ target := by
  obtain ⟨_, hkernels, -⟩ := bind_eq_ok.1 h
  have hboard := forM_eq_ok.1 hkernels board (by cases board <;> simp [boards])
  unfold checkKernels at hboard
  dsimp only at hboard
  split_ifs at hboard
  all_goals
    obtain ⟨_, htargets, -⟩ := bind_eq_ok.1 hboard
    have hchecked := forM_eq_ok.1 htargets target (by simpa using htarget)
    unfold checkKernelTarget at hchecked
    split_ifs at hchecked with hslash
    exact fun hmem => hslash (.inl hmem)

end Bmx.SdCard
