import Bmx.Input.VirtualKeyboard

/-!
# What the virtual keyboard leaves latched

A press or a release sets the lead of the key under the cursor and the state that this key shows. From a state where nothing
is stuck it leads to another just if it agrees with the toggle keys and, as the last release, finds the cursor on what is
latched. So a run leaves nothing stuck just if all its calls are harmless.
-/

namespace Bmx.Input.VirtualKeyboard

open Option Function

variable {n : Nat} {layout : VkbdLayout n} {v : VirtualKeyboard n}

/-! ### A press or a release -/

theorem emuxKbdSetLatchKeyarr_level (row col value : Int32) (v : VirtualKeyboard n) (lead : VkbdLead) :
    (v.emuxKbdSetLatchKeyarr row col value).level lead =
      if ¬ (row < 0 ∨ col < 0) ∧ lead = .matrix row col then decide (value ≠ 0) else v.level lead := by
  unfold emuxKbdSetLatchKeyarr
  split
  · rename_i hnegative
    rw [if_neg fun h => h.1 hnegative]
  · rename_i hmatrix
    cases lead with
    | restore => rw [if_neg (by simp)]; rfl
    | matrix row' col' =>
      simp only [level, update_apply, VkbdLead.matrix.injEq, hmatrix, not_false_eq_true, true_and, Prod.mk.injEq]

theorem emuxKbdSetLatchKeyarr_rest (row col value : Int32) (v : VirtualKeyboard n) :
    (v.emuxKbdSetLatchKeyarr row col value).state = v.state ∧ (v.emuxKbdSetLatchKeyarr row col value).press = v.press := by
  unfold emuxKbdSetLatchKeyarr
  split <;> exact ⟨rfl, rfl⟩

theorem showModifier_rest (code state : Int32) (v : VirtualKeyboard n) :
    (v.showModifier code state).level = v.level ∧ (v.showModifier code state).state = v.state ∧
      (v.showModifier code state).press = v.press := by
  unfold showModifier
  repeat' split
  all_goals exact ⟨rfl, rfl, rfl⟩

/-- A key's lead, where its toggling and the matrix say which of the two it is. -/
theorem lead_matrix {key : VkbdKey n} (h : key.toggle ≠ 0 ∨ ¬ (key.row = 0 ∧ key.col = -3)) (lead : VkbdLead) :
    key.lead = some lead ↔ ¬ (key.col < 0 ∨ key.row < 0) ∧ lead = .matrix key.col key.row := by
  have hrestore : ¬ (key.toggle = 0 ∧ key.row = 0 ∧ key.col = -3) := fun hkey => h.elim (· hkey.1) (· hkey.2)
  unfold VkbdKey.lead
  split <;> simp_all [eq_comm]

/-- A call sets the lead of the key under the cursor to what it gives it. -/
theorem vkbdNavPress_level (layout : VkbdLayout n) (pressed : Int32) (device : Fin joydevNumJoydevs)
    (v : VirtualKeyboard n) (lead : VkbdLead) :
    (v.vkbdNavPress layout pressed device).level lead =
      (v.given layout pressed).elim (v.level lead) fun value =>
        if (layout.keys v.cursor).lead = some lead then decide (value ≠ 0) else v.level lead := by
  change VirtualKeyboard.level (ite _ _ _) lead = _
  unfold given
  by_cases htoggle : (layout.keys v.cursor).toggle = 0
  · rw [if_neg (not_not.2 htoggle), if_pos htoggle, elim_some]
    change VirtualKeyboard.level (ite _ _ _) lead = _
    split
    · rename_i hrestore
      have hlead : (layout.keys v.cursor).lead = some .restore := if_pos ⟨htoggle, hrestore⟩
      rw [hlead]
      cases lead with
      | restore => simp [level]
      | matrix row col => rfl
    · rename_i hrestore
      rw [emuxKbdSetLatchKeyarr_level]
      simp only [lead_matrix (.inr hrestore)]
  · rw [if_pos htoggle, if_neg htoggle]
    split
    · rw [(showModifier_rest _ _ _).1, emuxKbdSetLatchKeyarr_level, elim_some]
      simp only [lead_matrix (.inl htoggle)]
      rfl
    · rfl

theorem vkbdNavPress_state (layout : VkbdLayout n) (pressed : Int32) (device : Fin joydevNumJoydevs)
    (v : VirtualKeyboard n) :
    (v.vkbdNavPress layout pressed device).state =
      (v.given layout pressed).elim v.state fun value => Function.update v.state v.cursor value := by
  change VirtualKeyboard.state (ite _ _ _) = _
  unfold given
  by_cases htoggle : (layout.keys v.cursor).toggle = 0
  · rw [if_neg (not_not.2 htoggle), if_pos htoggle, elim_some]
    dsimp only
    split
    · rfl
    · rw [(emuxKbdSetLatchKeyarr_rest _ _ _ _).1]
  · rw [if_pos htoggle, if_neg htoggle]
    split
    · rw [(showModifier_rest _ _ _).2.1, (emuxKbdSetLatchKeyarr_rest _ _ _ _).1, elim_some]
    · rfl

theorem vkbdNavPress_press (layout : VkbdLayout n) (pressed : Int32) (device : Fin joydevNumJoydevs)
    (v : VirtualKeyboard n) :
    (v.vkbdNavPress layout pressed device).press = Function.update v.press device pressed := by
  unfold vkbdNavPress
  dsimp only
  split
  · split
    · rw [(showModifier_rest _ _ _).2.2, (emuxKbdSetLatchKeyarr_rest _ _ _ _).2]
    · rfl
  · split
    · rfl
    · dsimp only
      rw [(emuxKbdSetLatchKeyarr_rest _ _ _ _).2]

/-- Afterwards the keys on the lead of the key under the cursor are latched as it was given, the others as before. -/
theorem vkbdNavPress_latched {pressed value : Int32} (hgiven : v.given layout pressed = some value)
    (device : Fin joydevNumJoydevs) (i : Fin n) :
    (v.vkbdNavPress layout pressed device).Latched layout i ↔
      if (layout.keys i).lead = (layout.keys v.cursor).lead then (layout.keys i).lead ≠ none ∧ value ≠ 0
      else v.Latched layout i := by
  unfold Latched
  simp only [vkbdNavPress_level, hgiven, elim_some]
  split
  · rename_i hsame
    rw [← hsame]
    cases (layout.keys i).lead <;> simp
  · rename_i hother
    refine exists_congr fun lead => and_congr_right fun hlead => ?_
    rw [if_neg fun hcursor => hother (hlead.trans hcursor.symm)]

theorem vkbdNavPress_latched_none {pressed : Int32} (hgiven : v.given layout pressed = none)
    (device : Fin joydevNumJoydevs) (i : Fin n) :
    (v.vkbdNavPress layout pressed device).Latched layout i ↔ v.Latched layout i := by
  unfold Latched
  simp only [vkbdNavPress_level, hgiven, elim_none]

/-! ### Steps -/

/-- Toggle keys stay latched just as they show it if the call agrees with them, and only then. -/
theorem toggles_iff (hstuck : v.NothingStuck layout) (pressed : Int32) (device : Fin joydevNumJoydevs) :
    (∀ i, (layout.keys i).toggle ≠ 0 → ((v.vkbdNavPress layout pressed device).Latched layout i ↔
      (v.vkbdNavPress layout pressed device).state i ≠ 0)) ↔
      ∀ value, v.given layout pressed = some value → v.Agrees layout value := by
  cases hgiven : v.given layout pressed with
  | none =>
    refine iff_of_true (fun i htoggle => ?_) nofun
    rw [vkbdNavPress_latched_none hgiven, vkbdNavPress_state, hgiven, elim_none]
    exact hstuck.toggles i htoggle
  | some value =>
    simp only [vkbdNavPress_latched hgiven, vkbdNavPress_state, hgiven, elim_some, some.injEq, forall_eq']
    constructor
    · intro h
      constructor
      · intro i hi htoggle hlead hsome
        have hafter := h i htoggle
        rw [if_pos hlead, update_of_ne hi] at hafter
        exact ⟨fun hshown => (hafter.2 hshown).2, fun hvalue => hafter.1 ⟨hsome, hvalue⟩⟩
      · intro htoggle hnone
        have hafter := h v.cursor htoggle
        rw [if_pos rfl, update_self] at hafter
        by_contra hvalue
        exact (hafter.2 hvalue).1 hnone
    · intro hagrees i htoggle
      by_cases hi : i = v.cursor
      · rw [hi] at htoggle ⊢
        rw [if_pos rfl, update_self, and_iff_right_iff_imp]
        exact fun hvalue hnone => hvalue (hagrees.leads htoggle hnone)
      rw [update_of_ne hi]
      split
      · rename_i hlead
        by_cases hsome : (layout.keys i).lead = none
        · rw [← hstuck.toggles i htoggle]
          refine iff_of_false (fun h => h.1 hsome) ?_
          rintro ⟨lead, hkey, -⟩
          rw [hsome] at hkey
          cases hkey
        · rw [hagrees.others i hi htoggle hlead hsome]
          exact and_iff_right hsome
      · exact hstuck.toggles i htoggle

/-- No other key stays latched if the last release finds the cursor on what is latched, and only then. -/
theorem typed_iff (v : VirtualKeyboard n) (pressed : Int32) (device : Fin joydevNumJoydevs) :
    ((∀ other, (v.vkbdNavPress layout pressed device).press other = 0) → ∀ i, (layout.keys i).toggle = 0 →
      ¬ (v.vkbdNavPress layout pressed device).Latched layout i) ↔
      (pressed = 0 → (∀ other, other ≠ device → v.press other = 0) → v.OnlyCursor layout) := by
  have hlast : (∀ other, (v.vkbdNavPress layout pressed device).press other = 0) ↔
      pressed = 0 ∧ ∀ other, other ≠ device → v.press other = 0 := by
    rw [vkbdNavPress_press]
    exact forall_update_iff v.press fun _ value => value = 0
  rw [hlast, and_imp]
  refine forall_congr' fun hpressed => forall_congr' fun _ => forall_congr' fun i => forall_congr' fun _ => ?_
  by_cases htoggle : (layout.keys v.cursor).toggle = 0
  · have hgiven : v.given layout pressed = some 0 := by rw [given, if_pos htoggle, hpressed]
    rw [vkbdNavPress_latched hgiven, and_iff_right htoggle]
    split
    · rename_i hlead
      simp [hlead]
    · rename_i hlead
      simp [hlead]
  · have hgiven : v.given layout pressed = none := by rw [given, if_neg htoggle, if_neg (not_not.2 hpressed)]
    rw [vkbdNavPress_latched_none hgiven]
    simp [htoggle]

/-- From a state where nothing is stuck a call leads to another just if it is harmless. -/
theorem step_nothingStuck_iff (hstuck : v.NothingStuck layout) (call : Call) :
    (v.step layout call).NothingStuck layout ↔ v.HarmlessCall layout call := by
  cases call with
  | press pressed device =>
    change (v.vkbdNavPress layout pressed device).NothingStuck layout ↔ _ ∧ _
    rw [← toggles_iff hstuck pressed device, ← typed_iff v pressed device]
    exact ⟨fun h => ⟨h.toggles, h.typed⟩, fun h => ⟨h.2, h.1⟩⟩
  | _ => exact iff_of_true ⟨hstuck.typed, hstuck.toggles⟩ trivial

/-! ### Runs -/

theorem init_nothingStuck (layout : VkbdLayout n) (cursor : Fin n) :
    ({ cursor := cursor } : VirtualKeyboard n).NothingStuck layout := by
  have hlatched (i : Fin n) : ¬ ({ cursor := cursor } : VirtualKeyboard n).Latched layout i := by
    rintro ⟨lead, -, hlevel⟩
    cases lead <;> cases hlevel
  exact ⟨fun _ i _ => hlatched i, fun i _ => iff_of_false (hlatched i) fun h => h rfl⟩

theorem run_nothingStuck_iff (hstuck : v.NothingStuck layout) (calls : List Call) :
    (∀ k, ((calls.take k).foldl (step layout) v).NothingStuck layout) ↔ v.Harmless layout calls := by
  induction calls generalizing v with
  | nil => exact iff_of_true (fun k => by rwa [List.take_nil]) trivial
  | cons call calls ih =>
    constructor
    · intro h
      have hnext : (v.step layout call).NothingStuck layout := h 1
      exact ⟨(step_nothingStuck_iff hstuck call).1 hnext, (ih hnext).1 fun k => h (k + 1)⟩
    · rintro ⟨hcall, hcalls⟩ k
      have hnext := (step_nothingStuck_iff hstuck call).2 hcall
      cases k with
      | zero => exact hstuck
      | succ k => exact (ih hnext).2 hcalls k

/-- Nothing is ever stuck in a run just if all its calls are harmless. -/
theorem nothing_stuck_iff {n : Nat} (layout : VkbdLayout n) (cursor : Fin n) (calls : List Call) :
    (∀ k, ((calls.take k).foldl (step layout) { cursor := cursor }).NothingStuck layout) ↔
      ({ cursor := cursor } : VirtualKeyboard n).Harmless layout calls :=
  run_nothingStuck_iff (init_nothingStuck layout cursor) calls

/-- The first two keys of the C64: one device presses the left arrow, another one moves right, and the first releases on 1.
The left arrow stays latched. -/
theorem moved_press_stays : ¬ ∀ (n : Nat) (layout : VkbdLayout n) (cursor : Fin n) (calls : List Call),
    Alternates (fun _ => false) calls →
      ∀ k, ((calls.take k).foldl (step layout) { cursor := cursor }).NothingStuck layout := by
  intro h
  let layout : VkbdLayout 2 :=
    { keys := fun
        | 0 => ⟨1, 7, 0, 31, 0, 0, 0, 1⟩
        | 1 => ⟨0, 7, 0, 49, 1, 1, 0, 1⟩
      restoreKeySym := 0x4B }
  have hstuck := h 2 layout 0 [.press 1 0, .right, .press 0 0] ⟨by decide, by decide, trivial⟩ 3
  exact hstuck.typed (by decide) 0 rfl ⟨.matrix 7 1, by decide, by decide⟩

end Bmx.Input.VirtualKeyboard
