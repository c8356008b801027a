import Mathlib.Data.List.Nodup
import Bmx.Keymap.KeymapEditor

/-!
# Invariants of the keymap editor

Every call keeps the targets distinct and the lists within their limits, and a key that is bound is one that is undefined
first. A call that binds a source leaves it with one binding.
-/

namespace Bmx.Keymap

open List

/-! ### Flags -/

/-- The flags that a target's bindings are made with have none of the host's. -/
def Clean (target : EditorTarget) : Prop := targetMappingFlags target.mappingFlags = target.mappingFlags

/-- The flags of a target are those that its bindings have. -/
def Agrees (target : EditorTarget) : Prop := normalizedTargetFlags target.mappingFlags = target.flags

theorem and_or_distrib_right (a b c : Int32) : (a ||| b) &&& c = (a &&& c) ||| (b &&& c) :=
  Int32.toBitVec_inj.1 BitVec.and_or_distrib_right

theorem normalized_mappingFlags (flags : Int32) :
    normalizedTargetFlags (targetMappingFlags flags) = normalizedTargetFlags flags := by
  unfold normalizedTargetFlags targetMappingFlags
  rw [Int32.and_assoc]
  rfl

theorem mappingFlags_mappingFlags (flags : Int32) :
    targetMappingFlags (targetMappingFlags flags) = targetMappingFlags flags := by
  unfold targetMappingFlags
  rw [Int32.and_assoc, Int32.and_self]

theorem mappingFlags_deshift (flags : Int32) :
    targetMappingFlags (flags &&& ~~~deshift) = targetMappingFlags flags &&& ~~~deshift := by
  unfold targetMappingFlags
  rw [Int32.and_assoc, Int32.and_assoc]
  rfl

theorem normalized_deshift (flags : Int32) :
    normalizedTargetFlags (flags &&& ~~~deshift) = normalizedTargetFlags flags := by
  unfold normalizedTargetFlags
  rw [Int32.and_assoc]
  rfl

variable {hostFlags : Int32} {target : EditorTarget} {targets original ordered result : List EditorTarget}
  {kept : List EditorBinding} {keycode : Int}

theorem hostFlags_and (h : hostFlags &&& ~~~hostFlagMask = 0) (mask : Int32) :
    hostFlags &&& mask = hostFlags &&& (hostFlagMask &&& mask) := by
  have hsplit : hostFlags = hostFlags &&& hostFlagMask := by
    have hall : hostFlags &&& (hostFlagMask ||| ~~~hostFlagMask) = hostFlags := by
      rw [Int32.or_not_self, Int32.and_neg_one]
    rw [Int32.and_comm, and_or_distrib_right, Int32.and_comm, Int32.and_comm (~~~hostFlagMask), h, Int32.or_zero] at hall
    exact hall.symm
  conv_lhs => rw [hsplit]
  rw [Int32.and_assoc]

/-- The flags of a binding are those of its target with some that are neither the host's nor virtual, and the host's. -/
theorem makeBinding_flags (target : EditorTarget) (keycode : Int) (hostFlags : Int32) :
    (makeBinding target keycode hostFlags).flags = target.mappingFlags ||| hostFlags ∨
      (makeBinding target keycode hostFlags).flags = ((target.mappingFlags &&& ~~~allowShift) ||| deshift) ||| hostFlags := by
  unfold makeBinding
  dsimp only
  split
  · exact Or.inr rfl
  · exact Or.inl rfl

theorem makeBinding_source (hclean : Clean target) (keycode : Int) (hhost : hostFlags &&& ~~~hostFlagMask = 0) :
    bindingSourceEquals keycode hostFlags (makeBinding target keycode hostFlags) = true := by
  have hself : hostFlags &&& hostFlagMask = hostFlags := by
    have hall := hostFlags_and hhost (-1)
    rw [Int32.and_neg_one, Int32.and_neg_one] at hall
    exact hall.symm
  have hnone : target.mappingFlags &&& hostFlagMask = 0 := by
    rw [← hclean, targetMappingFlags, Int32.and_assoc]
    exact Int32.and_zero
  have hflags : sourceFlags (makeBinding target keycode hostFlags).flags = hostFlags := by
    unfold sourceFlags
    rcases makeBinding_flags target keycode hostFlags with h | h
    · rw [h, and_or_distrib_right, hnone, hself, Int32.zero_or]
    · rw [h, and_or_distrib_right, and_or_distrib_right, hself, Int32.and_assoc]
      have hmask : ~~~allowShift &&& hostFlagMask = hostFlagMask := rfl
      have hdeshift : deshift &&& hostFlagMask = 0 := rfl
      rw [hmask, hnone, hdeshift, Int32.or_zero, Int32.zero_or]
  exact decide_eq_true ⟨rfl, hflags⟩

theorem makeBinding_targets (hagrees : Agrees target) (keycode : Int) (hhost : hostFlags &&& ~~~hostFlagMask = 0) :
    bindingTargets (makeBinding target keycode hostFlags) target = true := by
  have hnone : hostFlags &&& virtualFlags = 0 := by
    rw [hostFlags_and hhost]
    exact Int32.and_zero
  have hflags : normalizedTargetFlags (makeBinding target keycode hostFlags).flags = target.flags := by
    rw [← hagrees]
    unfold normalizedTargetFlags
    rcases makeBinding_flags target keycode hostFlags with h | h
    · rw [h, and_or_distrib_right, hnone, Int32.or_zero]
    · rw [h, and_or_distrib_right, and_or_distrib_right, hnone, Int32.and_assoc, Int32.or_zero]
      have hmask : ~~~allowShift &&& virtualFlags = virtualFlags := rfl
      have hdeshift : deshift &&& virtualFlags = 0 := rfl
      rw [hmask, hdeshift, Int32.or_zero]
  exact decide_eq_true ⟨rfl, rfl, hflags⟩

/-! ### Lists -/

/-- Two targets that are not the same key. -/
abbrev Distinct (targets : List EditorTarget) : Prop := targets.Pairwise fun a b => targetEquals a b = false

theorem targetEquals_iff {a b : EditorTarget} :
    targetEquals a b = true ↔ a.row = b.row ∧ a.column = b.column ∧ a.flags = b.flags := decide_eq_true_iff

theorem targetListContains_eq_false :
    targetListContains targets target = false ↔ ∀ other ∈ targets, targetEquals other target = false := by
  unfold targetListContains
  rw [any_eq_false]
  simp only [Bool.not_eq_true]

theorem distinct_snoc (h : Distinct targets)
    (hnew : targetListContains targets target = false) : Distinct (targets ++ [target]) := by
  rw [Distinct, pairwise_append]
  refine ⟨h, pairwise_singleton _ _, fun other hother last hlast => ?_⟩
  rw [mem_singleton] at hlast
  rw [hlast]
  exact targetListContains_eq_false.1 hnew other hother

theorem removeBindings_eq (removed : EditorBinding → Bool) (kept rest : List EditorBinding) :
    removeBindings removed kept rest = kept ++ rest.filter fun binding => !removed binding := by
  induction rest generalizing kept with
  | nil => simp [removeBindings]
  | cons binding rest ih =>
    unfold removeBindings
    by_cases hremoved : removed binding = true
    · simp [ih, hremoved]
    · simp [ih, hremoved]

theorem replaceLoop_passed (removed : EditorBinding → Bool) {selected : Nat}
    (h : selected < kept.length) (rest : List EditorBinding) :
    replaceLoop removed selected kept rest = (kept ++ rest.filter (fun binding => !removed binding), selected) := by
  induction rest generalizing kept with
  | nil => simp [replaceLoop]
  | cons binding rest ih =>
    unfold replaceLoop
    have hother : kept.length ≠ selected := by omega
    have hnotBefore : ¬ kept.length < selected := by omega
    by_cases hremoved : removed binding = true
    · rw [if_pos ⟨hother, hremoved⟩, if_neg hnotBefore, ih h]
      simp [hremoved]
    · rw [if_neg fun hboth => hremoved hboth.2, ih (by rw [length_append]; omega)]
      simp [hremoved]

/-- The selected binding stays, and its index is where it is in the end. -/
theorem replaceLoop_eq (removed : EditorBinding → Bool) (kept front : List EditorBinding) (old : EditorBinding)
    (back : List EditorBinding) :
    replaceLoop removed (kept.length + front.length) kept (front ++ old :: back) =
      (kept ++ front.filter (fun binding => !removed binding) ++ old :: back.filter (fun binding => !removed binding),
        (kept ++ front.filter fun binding => !removed binding).length) := by
  induction front generalizing kept with
  | nil =>
    have hself : ¬ (kept.length ≠ kept.length + 0 ∧ removed old = true) := fun hboth => hboth.1 rfl
    rw [nil_append, length_nil, replaceLoop, if_neg hself, replaceLoop_passed]
    · simp
    · rw [length_append, length_singleton]
      omega
  | cons binding front ih =>
    have hother : kept.length ≠ kept.length + (binding :: front).length := by rw [length_cons]; omega
    rw [cons_append, replaceLoop]
    by_cases hremoved : removed binding = true
    · have hbefore : kept.length < kept.length + (binding :: front).length := by rw [length_cons]; omega
      have hindex : kept.length + (binding :: front).length - 1 = kept.length + front.length := by
        rw [length_cons]
        omega
      rw [if_pos ⟨hother, hremoved⟩, if_pos hbefore, hindex, ih]
      simp [hremoved]
    · have hindex : kept.length + (binding :: front).length = (kept ++ [binding]).length + front.length := by
        rw [length_cons, length_append, length_singleton]
        omega
      rw [if_neg fun hboth => hremoved hboth.2, hindex, ih]
      simp [hremoved]

/-- The search for a binding of a target ends at one, or at the end. -/
theorem targetBindingFrom_spec (target : EditorTarget) (bindingIndex : Nat) (found i : Nat) (bindings : List EditorBinding) :
    targetBindingFrom target bindingIndex found i bindings = i + bindings.length ∨
      ∃ front old back, bindings = front ++ old :: back ∧ bindingTargets old target = true ∧
        targetBindingFrom target bindingIndex found i bindings = i + front.length := by
  induction bindings generalizing found i with
  | nil => exact Or.inl rfl
  | cons binding bindings ih =>
    have hlater : ∀ found', targetBindingFrom target bindingIndex found' (i + 1) bindings = i + (binding :: bindings).length ∨
        ∃ front old back, binding :: bindings = front ++ old :: back ∧ bindingTargets old target = true ∧
          targetBindingFrom target bindingIndex found' (i + 1) bindings = i + front.length := by
      intro found'
      rcases ih found' (i + 1) with h | ⟨front, old, back, hbindings, hold, h⟩
      · refine Or.inl ?_
        rw [h, length_cons]
        omega
      · refine Or.inr ⟨binding :: front, old, back, by rw [hbindings]; rfl, hold, ?_⟩
        rw [h, length_cons]
        omega
    unfold targetBindingFrom
    by_cases htargets : bindingTargets binding target = true
    · rw [if_pos htargets]
      by_cases hfound : found = bindingIndex
      · rw [if_pos hfound]
        exact Or.inr ⟨[], binding, bindings, rfl, htargets, rfl⟩
      · rw [if_neg hfound]
        exact hlater _
    · rw [if_neg htargets]
      exact hlater _

/-! ### Undefined keys and targets -/

structure Undefines (model grown : EditorModel) (keycode : Int) : Prop where
  bindings_eq : grown.bindings = model.bindings
  targets_eq : grown.targets = model.targets
  mem : keycode ∈ grown.undefKeys
  subset : model.undefKeys ⊆ grown.undefKeys
  nodup : model.undefKeys.Nodup → grown.undefKeys.Nodup
  length_le : model.undefKeys.length ≤ maxUndefKeys → grown.undefKeys.length ≤ maxUndefKeys

theorem appendUndefKey_cases (model : EditorModel) (keycode : Int) :
    appendUndefKey model keycode = (model, false) ∨
      ∃ grown, appendUndefKey model keycode = (grown, true) ∧ Undefines model grown keycode := by
  unfold appendUndefKey
  by_cases hmem : keycode ∈ model.undefKeys
  · rw [if_pos hmem]
    exact Or.inr ⟨model, rfl, rfl, rfl, hmem, fun _ h => h, id, id⟩
  · rw [if_neg hmem]
    by_cases hfull : model.undefKeys.length ≥ maxUndefKeys
    · rw [if_pos hfull]
      exact Or.inl rfl
    · rw [if_neg hfull]
      refine Or.inr ⟨_, rfl, rfl, rfl, by simp, fun key hkey => mem_append_left _ hkey, fun hnodup => ?_, fun _ => ?_⟩
      · exact hnodup.append (nodup_singleton _) (by simpa using hmem)
      · rw [length_append, length_singleton]
        omega

structure TargetsWell (targets : List EditorTarget) : Prop where
  distinct : Distinct targets
  clean : ∀ target ∈ targets, Clean target
  length_le : targets.length ≤ maxTargets

theorem TargetsWell.snoc (h : TargetsWell targets)
    (hnew : targetListContains targets target = false) (hclean : Clean target) (hroom : targets.length < maxTargets) :
    TargetsWell (targets ++ [target]) where
  distinct := distinct_snoc h.distinct hnew
  clean := fun other hother => by
    rcases mem_append.1 hother with hother | hother
    · exact h.clean other hother
    · rw [mem_singleton.1 hother]
      exact hclean
  length_le := by rw [length_append, length_singleton]; omega

/-- A model with a target more, or with the targets it had. -/
structure TargetsGrown (model grown : EditorModel) : Prop where
  bindings_eq : grown.bindings = model.bindings
  undefKeys_eq : grown.undefKeys = model.undefKeys
  well : TargetsWell model.targets → TargetsWell grown.targets
  agree : (∀ target ∈ model.targets, Agrees target) → ∀ target ∈ grown.targets, Agrees target

theorem addTarget_cases (model : EditorModel) (row column flags : Int32) :
    addTarget model row column flags = (model, false) ∨
      ∃ grown, addTarget model row column flags = (grown, true) ∧ TargetsGrown model grown := by
  unfold addTarget
  dsimp only
  split
  · exact Or.inr ⟨model, rfl, rfl, rfl, id, id⟩
  · rename_i hnew
    split
    · exact Or.inl rfl
    · rename_i hroom
      refine Or.inr ⟨_, rfl, rfl, rfl, fun hwell => ?_, fun hagree target htarget => ?_⟩
      · exact hwell.snoc (Bool.eq_false_iff.2 hnew) (mappingFlags_mappingFlags flags) (by omega)
      · rcases mem_append.1 htarget with htarget | htarget
        · exact hagree target htarget
        · rw [mem_singleton.1 htarget]
          exact normalized_mappingFlags flags

/-! ### The order of the targets -/

theorem catalogTarget_clean (horiginal : ∀ target ∈ original, Clean target)
    (entry : EditorTarget) : Clean (catalogTarget original entry) := by
  unfold catalogTarget
  dsimp only
  split
  · exact mappingFlags_mappingFlags _
  · rename_i existing hfind
    have hexisting := horiginal existing (mem_of_find?_eq_some hfind)
    split
    · unfold Clean at hexisting ⊢
      rw [mappingFlags_deshift, hexisting]
    · exact mappingFlags_mappingFlags _

/-- The flags of an entry are those that its mapping flags have. -/
def EntryAgrees (entry : EditorTarget) : Prop :=
  normalizedTargetFlags entry.mappingFlags = normalizedTargetFlags entry.flags

theorem catalogTarget_agrees (horiginal : ∀ target ∈ original, Agrees target)
    {entry : EditorTarget} (hentry : EntryAgrees entry) : Agrees (catalogTarget original entry) := by
  have htarget : normalizedTargetFlags (targetMappingFlags entry.mappingFlags) = normalizedTargetFlags entry.flags := by
    rw [normalized_mappingFlags, hentry]
  unfold catalogTarget
  dsimp only
  split
  · exact htarget
  · rename_i existing hfind
    have hexisting := horiginal existing (mem_of_find?_eq_some hfind)
    have hsame := targetEquals_iff.1 (find?_some (p := fun existing => targetEquals existing _) hfind)
    split
    · unfold Agrees at hexisting ⊢
      rw [normalized_deshift, hexisting]
      exact hsame.2.2
    · exact htarget

theorem orderCatalog_spec {catalog : List EditorTarget}
    (h : orderCatalog original ordered catalog = some result) (horiginal : ∀ target ∈ original, Clean target)
    (hwell : TargetsWell ordered) :
    TargetsWell result ∧ ∀ target ∈ result, target ∈ ordered ∨ ∃ entry ∈ catalog, target = catalogTarget original entry := by
  induction catalog generalizing ordered with
  | nil =>
    cases h
    exact ⟨hwell, fun target htarget => Or.inl htarget⟩
  | cons entry catalog ih =>
    unfold orderCatalog at h
    by_cases hlisted : targetListContains ordered (catalogTarget original entry) = true
    · rw [if_pos hlisted] at h
      obtain ⟨hresult, hfrom⟩ := ih h hwell
      refine ⟨hresult, fun target htarget => (hfrom target htarget).imp_right fun hcatalog => ?_⟩
      obtain ⟨other, hother, hsame⟩ := hcatalog
      exact ⟨other, mem_cons_of_mem _ hother, hsame⟩
    · rw [if_neg hlisted] at h
      by_cases hfull : ordered.length ≥ maxTargets
      · rw [if_pos hfull] at h
        cases h
      · rw [if_neg hfull] at h
        obtain ⟨hresult, hfrom⟩ := ih h
          (hwell.snoc (Bool.eq_false_iff.2 hlisted) (catalogTarget_clean horiginal entry) (by omega))
        refine ⟨hresult, fun target htarget => ?_⟩
        rcases hfrom target htarget with hmem | ⟨other, hother, hsame⟩
        · rcases mem_append.1 hmem with hmem | hmem
          · exact Or.inl hmem
          · exact Or.inr ⟨entry, mem_cons_self, mem_singleton.1 hmem⟩
        · exact Or.inr ⟨other, mem_cons_of_mem _ hother, hsame⟩

theorem bestTarget_spec {best : Option EditorTarget} (h : bestTarget ordered best targets = some target) :
    best = some target ∨ (target ∈ targets ∧ targetListContains ordered target = false) := by
  induction targets generalizing best with
  | nil => exact Or.inl h
  | cons first targets ih =>
    have hlater : ∀ best', bestTarget ordered best' targets = some target →
        best' = some target ∨ (target ∈ first :: targets ∧ targetListContains ordered target = false) :=
      fun best' hbest => (ih hbest).imp_right fun hmem => ⟨mem_cons_of_mem _ hmem.1, hmem.2⟩
    unfold bestTarget at h
    split at h
    · exact hlater _ h
    · rename_i hnew
      split at h
      · rcases hlater _ h with hfirst | hrest
        · cases hfirst
          exact Or.inr ⟨mem_cons_self, Bool.eq_false_iff.2 hnew⟩
        · exact Or.inr hrest
      · exact hlater _ h

theorem orderRest_spec {room : Nat}
    (h : orderRest original room ordered = some result) (horiginal : ∀ target ∈ original, Clean target)
    (hwell : TargetsWell ordered) (hroom : ordered.length + room ≤ maxTargets) :
    TargetsWell result ∧ ∀ target ∈ result, target ∈ ordered ∨ target ∈ original := by
  induction room generalizing ordered with
  | zero =>
    unfold orderRest at h
    cases hbest : bestTarget ordered none original with
    | none =>
      rw [hbest] at h
      cases h
      exact ⟨hwell, fun target htarget => Or.inl htarget⟩
    | some best =>
      rw [hbest] at h
      cases h
  | succ room ih =>
    unfold orderRest at h
    cases hbest : bestTarget ordered none original with
    | none =>
      rw [hbest] at h
      cases h
      exact ⟨hwell, fun target htarget => Or.inl htarget⟩
    | some best =>
      rw [hbest] at h
      obtain ⟨hmem, hnew⟩ := (bestTarget_spec hbest).resolve_left (by simp)
      have hsnoc := hwell.snoc hnew (horiginal best hmem) (by omega)
      obtain ⟨hresult, hfrom⟩ := ih h hsnoc (by rw [length_append, length_singleton]; omega)
      refine ⟨hresult, fun target htarget => ?_⟩
      rcases hfrom target htarget with hold | horig
      · rcases mem_append.1 hold with hold | hold
        · exact Or.inl hold
        · exact Or.inr (by rw [mem_singleton.1 hold]; exact hmem)
      · exact Or.inr horig

theorem orderTargets_cases (model : EditorModel) (catalog : Option (List EditorTarget)) :
    orderTargets model catalog = (model, false) ∨
      ∃ ordered, orderTargets model catalog = ({ model with targets := ordered }, true) ∧
        (TargetsWell model.targets → TargetsWell ordered) ∧
        ((∀ target ∈ model.targets, Agrees target) → (∀ entries ∈ catalog, ∀ entry ∈ entries, EntryAgrees entry) →
          TargetsWell model.targets → ∀ target ∈ ordered, Agrees target) := by
  unfold orderTargets
  cases catalog with
  | none => exact Or.inl rfl
  | some catalog =>
    dsimp only
    split
    · exact Or.inl rfl
    cases hcatalog : orderCatalog model.targets [] catalog with
    | none => exact Or.inl rfl
    | some first =>
      dsimp only
      cases hrest : orderRest model.targets (maxTargets - first.length) first with
      | none => exact Or.inl rfl
      | some ordered =>
        have hempty : TargetsWell [] := ⟨List.Pairwise.nil, by simp, Nat.zero_le _⟩
        refine Or.inr ⟨ordered, rfl, fun hwell => ?_, fun hagree hentries hwell target htarget => ?_⟩
        · obtain ⟨hfirst, -⟩ := orderCatalog_spec hcatalog hwell.clean hempty
          exact (orderRest_spec hrest hwell.clean hfirst (by have := hfirst.length_le; omega)).1
        · obtain ⟨hfirst, hfrom⟩ := orderCatalog_spec hcatalog hwell.clean hempty
          have hroom : first.length + (maxTargets - first.length) ≤ maxTargets := by have := hfirst.length_le; omega
          rcases (orderRest_spec hrest hwell.clean hfirst hroom).2 target htarget with hold | horig
          · rcases hfrom target hold with hnone | ⟨entry, hentry, rfl⟩
            · cases hnone
            · exact catalogTarget_agrees hagree (hentries catalog rfl entry hentry)
          · exact hagree target horig

/-! ### One call -/

/-- What holds of a model at every time. -/
structure Invariant (model : EditorModel) : Prop where
  targets : TargetsWell model.targets
  undef_nodup : model.undefKeys.Nodup
  bound : ∀ binding ∈ model.bindings, binding.keycode ∈ model.undefKeys
  bindings_le : model.bindings.length ≤ maxBindings
  undef_le : model.undefKeys.length ≤ maxUndefKeys

/-- After a call, a source has one binding, for a target; of the bindings of other sources, some are kept. -/
structure Binds (kept : List EditorBinding) (target : EditorTarget) (keycode : Int) (hostFlags : Int32)
    (model after : EditorModel) : Prop where
  once : after.bindings.filter (bindingSourceEquals keycode hostFlags) = [makeBinding target keycode hostFlags]
  listed : Agrees target → bindingTargets (makeBinding target keycode hostFlags) target = true
  others : after.bindings.filter (fun binding => !bindingSourceEquals keycode hostFlags binding) =
    kept.filter fun binding => !bindingSourceEquals keycode hostFlags binding
  targets_eq : after.targets = model.targets

theorem Undefines.invariant {model grown : EditorModel} (h : Undefines model grown keycode)
    (hmodel : Invariant model) {bindings : List EditorBinding}
    (hbindings : ∀ binding ∈ bindings, binding ∈ model.bindings ∨ binding.keycode = keycode)
    (hlength : bindings.length ≤ maxBindings) : Invariant { grown with bindings := bindings } where
  targets := by rw [h.targets_eq]; exact hmodel.targets
  undef_nodup := h.nodup hmodel.undef_nodup
  bound := fun binding hbinding => by
    rcases hbindings binding hbinding with hold | hnew
    · exact h.subset (hmodel.bound binding hold)
    · rw [hnew]
      exact h.mem
  bindings_le := hlength
  undef_le := h.length_le hmodel.undef_le

theorem bindable_iff :
    bindable keycode hostFlags = true ↔ 0 < keycode ∧ hostFlags &&& ~~~hostFlagMask = 0 := decide_eq_true_iff

theorem rebind_cases (removed : EditorTarget → EditorBinding → Bool) (model : EditorModel) (targetIndex : Nat)
    (keycode : Int) (hostFlags : Int32) :
    rebind removed model targetIndex keycode hostFlags = (model, false) ∨
      ∃ target grown, model.targets[targetIndex]? = some target ∧ hostFlags &&& ~~~hostFlagMask = 0 ∧
        Undefines model grown keycode ∧
        (model.bindings.filter fun binding => !removed target binding).length < maxBindings ∧
        rebind removed model targetIndex keycode hostFlags =
          ({ grown with bindings := (model.bindings.filter fun binding => !removed target binding) ++
              [makeBinding target keycode hostFlags] }, true) := by
  unfold rebind
  cases htarget : model.targets[targetIndex]? with
  | none => exact Or.inl rfl
  | some target =>
    dsimp only
    split
    · exact Or.inl rfl
    · rename_i hchecks
      rw [Bool.or_eq_true, Bool.not_eq_true', Bool.not_eq_true', not_or, Bool.not_eq_false, Bool.not_eq_false] at hchecks
      obtain ⟨hbindable, hroom⟩ := hchecks
      rcases appendUndefKey_cases model keycode with hfull | ⟨grown, happend, hgrown⟩
      · rw [hfull]
        exact Or.inl rfl
      · rw [happend]
        refine Or.inr ⟨target, grown, rfl, (bindable_iff.1 hbindable).2, hgrown, ?_, ?_⟩
        · have hcount : model.bindings.length - model.bindings.countP (removed target) < maxBindings :=
            of_decide_eq_true hroom
          have hall := length_eq_countP_add_countP (removed target) (l := model.bindings)
          rw [← countP_eq_length_filter]
          have hsame : model.bindings.countP (fun binding => !removed target binding) =
              model.bindings.countP (fun binding => decide ¬ removed target binding = true) := by
            congr 1
            funext binding
            cases removed target binding <;> rfl
          omega
        · dsimp only
          rw [removeBindings_eq, nil_append, hgrown.bindings_eq]

theorem replaceBinding_cases (model : EditorModel) (targetIndex bindingIndex : Nat) (keycode : Int) (hostFlags : Int32) :
    replaceBinding model targetIndex bindingIndex keycode hostFlags = (model, false) ∨
      ∃ target grown front old back, model.targets[targetIndex]? = some target ∧ hostFlags &&& ~~~hostFlagMask = 0 ∧
        Undefines model grown keycode ∧ model.bindings = front ++ old :: back ∧ bindingTargets old target = true ∧
        targetBindingModelIndex model target bindingIndex = front.length ∧
        replaceBinding model targetIndex bindingIndex keycode hostFlags =
          ({ grown with bindings := front.filter (fun binding => !bindingSourceEquals keycode hostFlags binding) ++
              makeBinding target keycode hostFlags ::
                back.filter fun binding => !bindingSourceEquals keycode hostFlags binding }, true) := by
  unfold replaceBinding
  cases htarget : model.targets[targetIndex]? with
  | none => exact Or.inl rfl
  | some target =>
    dsimp only
    split
    · exact Or.inl rfl
    · rename_i hchecks
      rw [Bool.or_eq_true, Bool.not_eq_true', decide_eq_true_eq, not_or, Bool.not_eq_false] at hchecks
      obtain ⟨hbindable, hselected⟩ := hchecks
      rcases targetBindingFrom_spec target bindingIndex 0 0 model.bindings with hnone | ⟨front, old, back, hbindings, hold, hindex⟩
      · rw [Nat.zero_add] at hnone
        exact absurd (Nat.le_of_eq hnone.symm) hselected
      · rw [Nat.zero_add] at hindex
        have hmodelIndex : targetBindingModelIndex model target bindingIndex = front.length := hindex
        rcases appendUndefKey_cases model keycode with hfull | ⟨grown, happend, hgrown⟩
        · rw [hfull]
          exact Or.inl rfl
        · rw [happend]
          refine Or.inr ⟨target, grown, front, old, back, rfl, (bindable_iff.1 hbindable).2, hgrown, hbindings, hold,
            hmodelIndex, ?_⟩
          have hloop := replaceLoop_eq (bindingSourceEquals keycode hostFlags) [] front old back
          rw [length_nil, Nat.zero_add, nil_append] at hloop
          dsimp only
          rw [hgrown.bindings_eq, hbindings, hmodelIndex, hloop]
          simp

theorem removeBinding_cases (model : EditorModel) (targetIndex bindingIndex : Nat) :
    removeBinding model targetIndex bindingIndex = (model, false) ∨
      ∃ bindings, bindings.Sublist model.bindings ∧
        removeBinding model targetIndex bindingIndex = ({ model with bindings := bindings }, true) := by
  unfold removeBinding
  cases model.targets[targetIndex]? with
  | none => exact Or.inl rfl
  | some target =>
    dsimp only
    split
    · exact Or.inl rfl
    · exact Or.inr ⟨_, eraseIdx_sublist _ _, rfl⟩

theorem clearTarget_cases (model : EditorModel) (targetIndex : Nat) :
    clearTarget model targetIndex = (model, false) ∨
      ∃ bindings, bindings.Sublist model.bindings ∧ clearTarget model targetIndex = ({ model with bindings := bindings }, true) := by
  unfold clearTarget
  cases model.targets[targetIndex]? with
  | none => exact Or.inl rfl
  | some target =>
    dsimp only
    rw [removeBindings_eq, nil_append]
    by_cases hany : (model.bindings.any fun binding => bindingTargets binding target) = true
    · rw [hany]
      exact Or.inr ⟨_, filter_sublist, rfl⟩
    · rw [Bool.not_eq_true] at hany
      have hkept : model.bindings.filter (fun binding => !bindingTargets binding target) = model.bindings := by
        apply filter_eq_self.2
        intro binding hbinding
        rw [Bool.not_eq_true', ← Bool.not_eq_true]
        exact any_eq_false.1 hany binding hbinding
      rw [hany, hkept]
      exact Or.inl rfl

/-- A binding that is made among bindings of other sources is the only one of its source. -/
theorem binds_of_split (hclean : Clean target)
    (hhost : hostFlags &&& ~~~hostFlagMask = 0) {front back : List EditorBinding}
    (hsplit : front ++ back = kept.filter fun binding => !bindingSourceEquals keycode hostFlags binding)
    {model after : EditorModel} (hafter : after.bindings = front ++ makeBinding target keycode hostFlags :: back)
    (htargets : after.targets = model.targets) : Binds kept target keycode hostFlags model after := by
  have hmade := makeBinding_source hclean keycode hhost
  have hothers : ∀ binding ∈ front ++ back, bindingSourceEquals keycode hostFlags binding = false := by
    intro binding hbinding
    rw [hsplit] at hbinding
    simpa using (mem_filter.1 hbinding).2
  have hfront : ∀ binding ∈ front, bindingSourceEquals keycode hostFlags binding = false :=
    fun binding hbinding => hothers binding (mem_append_left _ hbinding)
  have hback : ∀ binding ∈ back, bindingSourceEquals keycode hostFlags binding = false :=
    fun binding hbinding => hothers binding (mem_append_right _ hbinding)
  constructor
  · rw [hafter, filter_append, filter_cons_of_pos hmade,
      filter_eq_nil_iff.2 fun binding hbinding => by simp [hfront binding hbinding],
      filter_eq_nil_iff.2 fun binding hbinding => by simp [hback binding hbinding]]
    rfl
  · exact fun hagrees => makeBinding_targets hagrees keycode hhost
  · rw [hafter, filter_append, filter_cons_of_neg (by simp [hmade]), ← hsplit,
      filter_eq_self.2 fun binding hbinding => by simp [hfront binding hbinding],
      filter_eq_self.2 fun binding hbinding => by simp [hback binding hbinding]]
  · exact htargets

/-! ### Runs -/

variable {model : EditorModel}

theorem initBindings_spec {bindings : List EditorBinding} (hmodel : Invariant model)
    (hagree : ∀ target ∈ model.targets, Agrees target) (hlength : model.bindings.length + bindings.length ≤ maxBindings) :
    Invariant (initBindings model bindings).1 ∧ ∀ target ∈ (initBindings model bindings).1.targets, Agrees target := by
  induction bindings generalizing model with
  | nil => exact ⟨hmodel, hagree⟩
  | cons binding bindings ih =>
    rw [length_cons] at hlength
    unfold initBindings
    split
    · exact ⟨hmodel, hagree⟩
    rcases appendUndefKey_cases model binding.keycode with hfull | ⟨grown, happend, hgrown⟩
    · rw [hfull]
      exact ⟨hmodel, hagree⟩
    · rw [happend]
      have hbound : Invariant { grown with bindings := grown.bindings ++ [binding] } := by
        apply hgrown.invariant hmodel
        · intro other hother
          rw [hgrown.bindings_eq] at hother
          exact (mem_append.1 hother).imp_right fun hlast => by rw [mem_singleton.1 hlast]
        · rw [length_append, length_singleton, hgrown.bindings_eq]
          omega
      have hagreeGrown : ∀ target ∈ grown.targets, Agrees target := by
        rw [hgrown.targets_eq]
        exact hagree
      dsimp only
      rcases addTarget_cases { grown with bindings := grown.bindings ++ [binding] } binding.row binding.column binding.flags
        with hnone | ⟨next, hadd, hnext⟩
      · rw [hnone]
        exact ⟨hbound, hagreeGrown⟩
      · rw [hadd]
        apply ih
        · exact
            { targets := hnext.well hbound.targets
              undef_nodup := by rw [hnext.undefKeys_eq]; exact hbound.undef_nodup
              bound := by rw [hnext.bindings_eq, hnext.undefKeys_eq]; exact hbound.bound
              bindings_le := by rw [hnext.bindings_eq]; exact hbound.bindings_le
              undef_le := by rw [hnext.undefKeys_eq]; exact hbound.undef_le }
        · exact hnext.agree hagreeGrown
        · rw [hnext.bindings_eq, length_append, length_singleton, hgrown.bindings_eq]
          omega

theorem empty_invariant : Invariant {} where
  targets := ⟨List.Pairwise.nil, by simp, Nat.zero_le _⟩
  undef_nodup := nodup_nil
  bound := by simp
  bindings_le := Nat.zero_le _
  undef_le := Nat.zero_le _

def CatalogAgrees : EditorCall → Prop
  | .orderTargets catalog => ∀ entries ∈ catalog, ∀ entry ∈ entries, EntryAgrees entry
  | _ => True

theorem modelInit_spec (hmodel : Invariant model) (bindings : Option (List EditorBinding)) :
    Invariant (modelInit model bindings).1 ∧
      ((∀ target ∈ model.targets, Agrees target) → ∀ target ∈ (modelInit model bindings).1.targets, Agrees target) := by
  unfold modelInit
  cases bindings with
  | none => exact ⟨hmodel, id⟩
  | some bindings =>
    dsimp only
    split
    · exact ⟨hmodel, id⟩
    · obtain ⟨hinvariant, hagree⟩ := @initBindings_spec {} bindings empty_invariant (by simp)
        (by rw [length_nil]; omega)
      exact ⟨hinvariant, fun _ => hagree⟩

theorem run_invariant (hmodel : Invariant model) (call : EditorCall) : Invariant (call.run model).1 := by
  have hrebind : ∀ removed targetIndex keycode hostFlags, Invariant (rebind removed model targetIndex keycode hostFlags).1 := by
    intro removed targetIndex keycode hostFlags
    rcases rebind_cases removed model targetIndex keycode hostFlags with h | ⟨target, grown, -, -, hgrown, hroom, h⟩
    · rw [h]
      exact hmodel
    · rw [h]
      apply hgrown.invariant hmodel
      · intro binding hbinding
        exact (mem_append.1 hbinding).imp (fun hold => (mem_filter.1 hold).1)
          fun hlast => by rw [mem_singleton.1 hlast]; rfl
      · rw [length_append, length_singleton]
        omega
  have hsublist : ∀ bindings : List EditorBinding, bindings.Sublist model.bindings →
      Invariant { model with bindings := bindings } := fun bindings hbindings =>
    { targets := hmodel.targets
      undef_nodup := hmodel.undef_nodup
      bound := fun binding hbinding => hmodel.bound binding (hbindings.subset hbinding)
      bindings_le := Nat.le_trans hbindings.length_le hmodel.bindings_le
      undef_le := hmodel.undef_le }
  cases call with
  | init bindings => exact (modelInit_spec hmodel bindings).1
  | addTarget row column flags =>
    change Invariant (addTarget model row column flags).1
    rcases addTarget_cases model row column flags with h | ⟨grown, h, hgrown⟩
    · rw [h]
      exact hmodel
    · rw [h]
      exact
        { targets := hgrown.well hmodel.targets
          undef_nodup := by rw [hgrown.undefKeys_eq]; exact hmodel.undef_nodup
          bound := by rw [hgrown.bindings_eq, hgrown.undefKeys_eq]; exact hmodel.bound
          bindings_le := by rw [hgrown.bindings_eq]; exact hmodel.bindings_le
          undef_le := by rw [hgrown.undefKeys_eq]; exact hmodel.undef_le }
  | orderTargets catalog =>
    change Invariant (orderTargets model catalog).1
    rcases orderTargets_cases model catalog with h | ⟨ordered, h, hordered, -⟩
    · rw [h]
      exact hmodel
    · rw [h]
      exact
        { targets := hordered hmodel.targets
          undef_nodup := hmodel.undef_nodup
          bound := hmodel.bound
          bindings_le := hmodel.bindings_le
          undef_le := hmodel.undef_le }
  | add targetIndex keycode hostFlags => exact hrebind _ _ _ _
  | replace targetIndex bindingIndex keycode hostFlags =>
    change Invariant (replaceBinding model targetIndex bindingIndex keycode hostFlags).1
    rcases replaceBinding_cases model targetIndex bindingIndex keycode hostFlags with
      h | ⟨target, grown, front, old, back, -, -, hgrown, hbindings, -, -, h⟩
    · rw [h]
      exact hmodel
    · rw [h]
      apply hgrown.invariant hmodel
      · intro binding hbinding
        rw [hbindings]
        rcases mem_append.1 hbinding with hfront | hrest
        · exact Or.inl (mem_append_left _ (mem_filter.1 hfront).1)
        · rcases mem_cons.1 hrest with rfl | hback
          · exact Or.inr rfl
          · exact Or.inl (mem_append_right _ (mem_cons_of_mem _ (mem_filter.1 hback).1))
      · have hlength := hmodel.bindings_le
        have hfront := length_filter_le (fun binding => !bindingSourceEquals keycode hostFlags binding) front
        have hback := length_filter_le (fun binding => !bindingSourceEquals keycode hostFlags binding) back
        rw [hbindings, length_append, length_cons] at hlength
        rw [length_append, length_cons]
        omega
  | assign targetIndex keycode hostFlags => exact hrebind _ _ _ _
  | remove targetIndex bindingIndex =>
    change Invariant (removeBinding model targetIndex bindingIndex).1
    rcases removeBinding_cases model targetIndex bindingIndex with h | ⟨bindings, hbindings, h⟩
    · rw [h]
      exact hmodel
    · rw [h]
      exact hsublist bindings hbindings
  | clear targetIndex =>
    change Invariant (clearTarget model targetIndex).1
    rcases clearTarget_cases model targetIndex with h | ⟨bindings, hbindings, h⟩
    · rw [h]
      exact hmodel
    · rw [h]
      exact hsublist bindings hbindings

variable {call : EditorCall}

theorem run_agrees (hmodel : Invariant model) (hagree : ∀ target ∈ model.targets, Agrees target)
    (hcall : CatalogAgrees call) : ∀ target ∈ (call.run model).1.targets, Agrees target := by
  have hrebind : ∀ removed targetIndex keycode hostFlags,
      (rebind removed model targetIndex keycode hostFlags).1.targets = model.targets := by
    intro removed targetIndex keycode hostFlags
    rcases rebind_cases removed model targetIndex keycode hostFlags with h | ⟨target, grown, -, -, hgrown, -, h⟩
    · rw [h]
    · rw [h]
      exact hgrown.targets_eq
  cases call with
  | init bindings => exact (modelInit_spec hmodel bindings).2 hagree
  | addTarget row column flags =>
    change ∀ target ∈ (addTarget model row column flags).1.targets, Agrees target
    rcases addTarget_cases model row column flags with h | ⟨grown, h, hgrown⟩
    · rw [h]
      exact hagree
    · rw [h]
      exact hgrown.agree hagree
  | orderTargets catalog =>
    change ∀ target ∈ (orderTargets model catalog).1.targets, Agrees target
    rcases orderTargets_cases model catalog with h | ⟨ordered, h, -, hordered⟩
    · rw [h]
      exact hagree
    · rw [h]
      exact hordered hagree hcall hmodel.targets
  | add targetIndex keycode hostFlags | assign targetIndex keycode hostFlags =>
    change ∀ target ∈ (rebind _ model targetIndex keycode hostFlags).1.targets, Agrees target
    rw [hrebind]
    exact hagree
  | replace targetIndex bindingIndex keycode hostFlags =>
    change ∀ target ∈ (replaceBinding model targetIndex bindingIndex keycode hostFlags).1.targets, Agrees target
    rcases replaceBinding_cases model targetIndex bindingIndex keycode hostFlags with
      h | ⟨target, grown, front, old, back, -, -, hgrown, -, -, -, h⟩
    · rw [h]
      exact hagree
    · rw [h, hgrown.targets_eq]
      exact hagree
  | remove targetIndex bindingIndex =>
    change ∀ target ∈ (removeBinding model targetIndex bindingIndex).1.targets, Agrees target
    rcases removeBinding_cases model targetIndex bindingIndex with h | ⟨bindings, -, h⟩
    · rw [h]
      exact hagree
    · rw [h]
      exact hagree
  | clear targetIndex =>
    change ∀ target ∈ (clearTarget model targetIndex).1.targets, Agrees target
    rcases clearTarget_cases model targetIndex with h | ⟨bindings, -, h⟩
    · rw [h]
      exact hagree
    · rw [h]
      exact hagree

theorem eq_of_refused {result : EditorModel × Bool} (h : result = (model, false) ∨ ∃ after, result = (after, true))
    (hrefused : result.2 = false) : result.1 = model := by
  rcases h with h | ⟨after, h⟩
  · rw [h]
  · rw [h] at hrefused
    cases hrefused

/-- A call that is refused has left the model as it was, unless it was to fill it. -/
theorem run_refused (hcall : ∀ bindings, call ≠ .init bindings) (hrefused : (call.run model).2 = false) :
    (call.run model).1 = model := by
  cases call with
  | init bindings => exact absurd rfl (hcall bindings)
  | addTarget row column flags =>
    refine eq_of_refused ((addTarget_cases model row column flags).imp_right fun h => ?_) hrefused
    obtain ⟨grown, h, -⟩ := h
    exact ⟨grown, h⟩
  | orderTargets catalog =>
    refine eq_of_refused ((orderTargets_cases model catalog).imp_right fun h => ?_) hrefused
    obtain ⟨ordered, h, -⟩ := h
    exact ⟨_, h⟩
  | add targetIndex keycode hostFlags | assign targetIndex keycode hostFlags =>
    refine eq_of_refused ((rebind_cases _ model targetIndex keycode hostFlags).imp_right fun h => ?_) hrefused
    obtain ⟨target, grown, -, -, -, -, h⟩ := h
    exact ⟨_, h⟩
  | replace targetIndex bindingIndex keycode hostFlags =>
    refine eq_of_refused
      ((replaceBinding_cases model targetIndex bindingIndex keycode hostFlags).imp_right fun h => ?_) hrefused
    obtain ⟨target, grown, front, old, back, -, -, -, -, -, -, h⟩ := h
    exact ⟨_, h⟩
  | remove targetIndex bindingIndex =>
    refine eq_of_refused ((removeBinding_cases model targetIndex bindingIndex).imp_right fun h => ?_) hrefused
    obtain ⟨bindings, -, h⟩ := h
    exact ⟨_, h⟩
  | clear targetIndex =>
    refine eq_of_refused ((clearTarget_cases model targetIndex).imp_right fun h => ?_) hrefused
    obtain ⟨bindings, -, h⟩ := h
    exact ⟨_, h⟩

/-- What a call that binds a source does: `add` keeps the bindings of other sources, `assign` drops those of its target, and
`replace` puts the binding in the place of the one that is selected. -/
def Rebinds (model after : EditorModel) : EditorCall → Prop
  | .add targetIndex keycode hostFlags =>
    ∃ target, model.targets[targetIndex]? = some target ∧ Binds model.bindings target keycode hostFlags model after
  | .assign targetIndex keycode hostFlags =>
    ∃ target, model.targets[targetIndex]? = some target ∧
      Binds (model.bindings.filter fun binding => !bindingTargets binding target) target keycode hostFlags model after
  | .replace targetIndex bindingIndex keycode hostFlags =>
    ∃ target front old back, model.targets[targetIndex]? = some target ∧ model.bindings = front ++ old :: back ∧
      bindingTargets old target = true ∧ targetBindingModelIndex model target bindingIndex = front.length ∧
      Binds (front ++ back) target keycode hostFlags model after
  | _ => True

theorem run_rebinds (hmodel : Invariant model) (hdone : (call.run model).2 = true) :
    Rebinds model (call.run model).1 call := by
  cases call with
  | add targetIndex keycode hostFlags =>
    rcases rebind_cases (fun _ => bindingSourceEquals keycode hostFlags) model targetIndex keycode hostFlags with
      h | ⟨target, grown, htarget, hhost, hgrown, -, h⟩
    · exact absurd ((congrArg Prod.snd h).symm.trans hdone) Bool.false_ne_true
    · have hclean := hmodel.targets.clean target (mem_of_getElem? htarget)
      refine ⟨target, htarget, binds_of_split hclean hhost (append_nil _) (congrArg (fun after => after.1.bindings) h) ?_⟩
      exact (congrArg (fun after => after.1.targets) h).trans hgrown.targets_eq
  | assign targetIndex keycode hostFlags =>
    rcases rebind_cases (fun target binding => bindingTargets binding target || bindingSourceEquals keycode hostFlags binding)
        model targetIndex keycode hostFlags with h | ⟨target, grown, htarget, hhost, hgrown, -, h⟩
    · exact absurd ((congrArg Prod.snd h).symm.trans hdone) Bool.false_ne_true
    · have hclean := hmodel.targets.clean target (mem_of_getElem? htarget)
      refine ⟨target, htarget, binds_of_split hclean hhost ?_ (congrArg (fun after => after.1.bindings) h) ?_⟩
      · rw [append_nil, filter_filter]
        congr 1
        funext binding
        rw [Bool.not_or, Bool.and_comm]
      · exact (congrArg (fun after => after.1.targets) h).trans hgrown.targets_eq
  | replace targetIndex bindingIndex keycode hostFlags =>
    rcases replaceBinding_cases model targetIndex bindingIndex keycode hostFlags with
      h | ⟨target, grown, front, old, back, htarget, hhost, hgrown, hbindings, hold, hindex, h⟩
    · exact absurd ((congrArg Prod.snd h).symm.trans hdone) Bool.false_ne_true
    · have hclean := hmodel.targets.clean target (mem_of_getElem? htarget)
      refine ⟨target, front, old, back, htarget, hbindings, hold, hindex,
        binds_of_split hclean hhost (filter_append _ _).symm (congrArg (fun after => after.1.bindings) h) ?_⟩
      exact (congrArg (fun after => after.1.targets) h).trans hgrown.targets_eq
  | _ => trivial

theorem runCalls_invariant (hmodel : Invariant model) (calls : List EditorCall) : Invariant (runCalls model calls) := by
  induction calls generalizing model with
  | nil => exact hmodel
  | cons call calls ih => exact ih (run_invariant hmodel call)

theorem runCalls_agrees (hmodel : Invariant model) (hagree : ∀ target ∈ model.targets, Agrees target)
    {calls : List EditorCall} (hcalls : ∀ call ∈ calls, CatalogAgrees call) :
    ∀ target ∈ (runCalls model calls).targets, Agrees target := by
  induction calls generalizing model with
  | nil => exact hagree
  | cons call calls ih =>
    exact ih (run_invariant hmodel call) (run_agrees hmodel hagree (hcalls call mem_cons_self))
      fun later hlater => hcalls later (mem_cons_of_mem _ hlater)

/-- What holds after any calls, and of any call after them. -/
theorem editor_calls_keep_invariants (calls : List EditorCall) :
    Invariant (runCalls {} calls) ∧
    ((∀ call ∈ calls, CatalogAgrees call) → ∀ target ∈ (runCalls {} calls).targets, Agrees target) ∧
    ∀ call : EditorCall,
      ((call.run (runCalls {} calls)).2 = true → Rebinds (runCalls {} calls) (call.run (runCalls {} calls)).1 call) ∧
      ((∀ bindings, call ≠ .init bindings) → (call.run (runCalls {} calls)).2 = false →
        (call.run (runCalls {} calls)).1 = runCalls {} calls) :=
  ⟨runCalls_invariant empty_invariant calls, runCalls_agrees empty_invariant (by simp),
    fun _ => ⟨run_rebinds (runCalls_invariant empty_invariant calls), run_refused⟩⟩

/-- A key that is bound to a target. -/
def keyA : EditorBinding := { keycode := 4, row := 1, column := 2, flags := 0 }

/-- A catalog with an entry whose mapping flags press shift, which its own flags do not have. -/
def shiftedCatalog : List EditorTarget := [{ row := 0, column := 0, flags := 0, mappingFlags := virtualShift }]

/-- The targets of two keys, the shifted one first, and one without a key between them. -/
def keyCatalog : List EditorTarget :=
  [{ row := 3, column := 4, flags := virtualShift, mappingFlags := virtualShift },
    { row := 5, column := 6, flags := 0, mappingFlags := 0 }, { row := 1, column := 2, flags := 0, mappingFlags := 0 }]

/-- Another source is bound to the target between the two, and the source of the shifted one is given up. -/
def keyCalls : List EditorCall :=
  [.init (some [keyA, { keycode := 6, row := 3, column := 4, flags := virtualShift }]), .addTarget 5 6 0,
    .orderTargets (some keyCatalog), .add 1 8 0, .replace 0 0 9 0, .remove 0 0]

theorem keyA_assigned :
    (runCalls {} keyCalls).targets = keyCatalog ∧ (runCalls {} keyCalls).bindings.map (·.keycode) = [4, 8] ∧
      (∀ target ∈ (runCalls {} keyCalls).targets, Agrees target) ∧
      Rebinds (runCalls {} keyCalls) ((EditorCall.assign 2 8 0).run (runCalls {} keyCalls)).1 (.assign 2 8 0) := by
  obtain ⟨-, hagrees, hcall⟩ := editor_calls_keep_invariants keyCalls
  have hcatalog : ∀ entry ∈ keyCatalog, EntryAgrees entry := by
    unfold EntryAgrees
    decide
  refine ⟨by decide, by decide, hagrees ?_, (hcall (.assign 2 8 0)).1 (by decide)⟩
  simpa [keyCalls, CatalogAgrees] using hcatalog

/-- `init` that is refused leaves what it has put in, `replace` changes a binding of another source, and with a catalog that
does not agree in its flags a binding is not for the target that was chosen. -/
theorem editor_calls_do_not_keep_all :
    (((EditorCall.init (some [{ keyA with keycode := 0 }])).run (runCalls {} [.init (some [keyA])])).2 = false ∧
      ((EditorCall.init (some [{ keyA with keycode := 0 }])).run (runCalls {} [.init (some [keyA])])).1 ≠
        runCalls {} [.init (some [keyA])]) ∧
    (((EditorCall.replace 0 0 5 0).run (runCalls {} [.init (some [keyA])])).2 = true ∧
      bindingSourceEquals 5 0 keyA = false ∧ keyA ∈ (runCalls {} [.init (some [keyA])]).bindings ∧
      keyA ∉ ((EditorCall.replace 0 0 5 0).run (runCalls {} [.init (some [keyA])])).1.bindings) ∧
    (((EditorCall.add 0 4 0).run (runCalls {} [.orderTargets (some shiftedCatalog)])).2 = true ∧
      ∀ binding ∈ ((EditorCall.add 0 4 0).run (runCalls {} [.orderTargets (some shiftedCatalog)])).1.bindings,
        ∀ target ∈ (runCalls {} [.orderTargets (some shiftedCatalog)]).targets, bindingTargets binding target = false) := by
  decide

end Bmx.Keymap
