import Bmx.Menu.JoyPortDevices

/-!
# What the ports agree on

A port that gets the mouse takes it from the others: their items and the core are told, and `joydevs` is not.
A refresh puts everything in line, whatever it finds, so the ports disagree only from a choice of the mouse for
one port, while another has it, to the next refresh or swap.
-/

namespace Bmx.Menu

open Function

namespace JoyPortState

variable {c : JoyPortMenu} {s : JoyPortState}

/-- One port at most has the mouse, the items and the core are of one mind with `joydevs`, and the core's mouse
is on just when the first or the second port has it. -/
structure Consistent (c : JoyPortMenu) (s : JoyPortState) : Prop where
  once : ∀ p q, c.hasItem p → c.hasItem q → s.joydevs p = joydevMouse → s.joydevs q = joydevMouse → p = q
  shown : ∀ p, c.hasItem p → s.shown p = s.joydevs p
  core : ∀ p, c.hasItem p → s.core p = s.joydevs p
  mouse : s.mouse = true ↔
    (c.hasItem 0 ∧ s.joydevs 0 = joydevMouse) ∨ (c.hasItem 1 ∧ s.joydevs 1 = joydevMouse)

/-! ### What a set port changes -/

def Loses (c : JoyPortMenu) (p q : JoyPort) (s : JoyPortState) : Prop :=
  q ≠ p ∧ c.hasItem q ∧ s.shown q = joydevMouse

instance (p q : JoyPort) : Decidable (s.Loses c p q) := inferInstanceAs (Decidable (_ ∧ _ ∧ _))

theorem choiceInts_zero : choiceInts 0 = joydevNone := rfl

theorem joydevNone_ne : joydevNone ≠ joydevMouse := by decide

theorem dropMouse_of_loses {p other : JoyPort} (h : s.Loses c p other) :
    s.dropMouse c p other =
      { s.setJoyPortDevice other joydevNone with items := Function.update s.items other 0 } := by
  rw [dropMouse, if_neg h.1, if_pos h.2]

theorem dropMouse_of_not {p other : JoyPort} (h : ¬ s.Loses c p other) : s.dropMouse c p other = s := by
  simp only [dropMouse]
  split
  · rfl
  · next hne =>
      rw [if_neg]
      exact fun hmouse => h ⟨hne, hmouse⟩

theorem dropMouse_eq (p other q : JoyPort) (s : JoyPortState) :
    (s.dropMouse c p other).items q = (if q = other ∧ s.Loses c p q then 0 else s.items q) ∧
      (s.dropMouse c p other).core q = (if q = other ∧ s.Loses c p q then joydevNone else s.core q) ∧
      (s.dropMouse c p other).joydevs = s.joydevs := by
  by_cases hloses : s.Loses c p other
  · rw [dropMouse_of_loses hloses]
    by_cases hq : q = other
    · subst hq
      simp [setJoyPortDevice, hloses]
    · simp [setJoyPortDevice, hq]
  · rw [dropMouse_of_not hloses]
    have hnone : ¬ (q = other ∧ s.Loses c p q) := by
      rintro ⟨rfl, hmine⟩
      exact hloses hmine
    rw [if_neg hnone, if_neg hnone]
    exact ⟨rfl, rfl, rfl⟩

theorem loses_congr {s' : JoyPortState} {p q : JoyPort} (hitems : s'.items q = s.items q) :
    s'.Loses c p q ↔ s.Loses c p q := by
  simp only [Loses, shown, hitems]

/-- The others are gone through one by one, and each is set to none if it has the mouse. -/
theorem dropAll_eq (ports : List JoyPort) (p q : JoyPort) (s : JoyPortState) :
    (ports.foldl (fun s other => s.dropMouse c p other) s).items q =
        (if q ∈ ports ∧ s.Loses c p q then 0 else s.items q) ∧
      (ports.foldl (fun s other => s.dropMouse c p other) s).core q =
        (if q ∈ ports ∧ s.Loses c p q then joydevNone else s.core q) ∧
      (ports.foldl (fun s other => s.dropMouse c p other) s).joydevs = s.joydevs := by
  induction ports generalizing s with
  | nil => simp
  | cons other ports ih =>
    obtain ⟨hitems, hcore, hjoydevs⟩ := dropMouse_eq (c := c) p other q s
    obtain ⟨ihItems, ihCore, ihJoydevs⟩ := ih (s.dropMouse c p other)
    simp only [List.foldl_cons, List.mem_cons]
    rw [ihItems, ihCore, ihJoydevs]
    by_cases hq : q = other ∧ s.Loses c p q
    · -- the port has lost the mouse by now, and it is not taken from it again
      rw [if_pos hq] at hitems hcore
      have hgone : ¬ (s.dropMouse c p other).Loses c p q := by
        intro h
        have hshown := h.2.2
        rw [shown, hitems, choiceInts_zero] at hshown
        exact joydevNone_ne hshown
      have hbefore : ¬ (q ∈ ports ∧ (s.dropMouse c p other).Loses c p q) := fun h => hgone h.2
      have hafter : (q = other ∨ q ∈ ports) ∧ s.Loses c p q := ⟨.inl hq.1, hq.2⟩
      simp only [if_neg hbefore, if_pos hafter, hitems, hcore, hjoydevs, and_self]
    · rw [if_neg hq] at hitems hcore
      have hsame : (q = other ∨ q ∈ ports) ∧ s.Loses c p q ↔ q ∈ ports ∧ s.Loses c p q := by tauto
      simp only [loses_congr hitems, hitems, hcore, hjoydevs, hsame, and_self]

/-- What `set_joy_item_to_value` does to a port. -/
theorem setJoyItemToValue_eq (p q : JoyPort) (value : Int32) (s : JoyPortState) :
    (s.setJoyItemToValue c p value).items q =
        (if value = joydevMouse ∧ s.Loses c p q then 0 else s.items q) ∧
      (s.setJoyItemToValue c p value).core q =
        (if q = p then value else if value = joydevMouse ∧ s.Loses c p q then joydevNone else s.core q) ∧
      (s.setJoyItemToValue c p value).joydevs q = (if q = p then value else s.joydevs q) := by
  have hloses : Loses c p q { s with joydevs := Function.update s.joydevs p value } ↔ s.Loses c p q := loses_congr rfl
  obtain ⟨hitems, hcore, hjoydevs⟩ :=
    dropAll_eq (c := c) (List.finRange 4) p q { s with joydevs := Function.update s.joydevs p value }
  simp only [List.mem_finRange, true_and, hloses] at hitems hcore
  simp only [setJoyItemToValue, setJoyPortDevice, update_apply]
  by_cases hvalue : value = joydevMouse
  · simp only [hvalue, if_true, true_and]
    subst hvalue
    refine ⟨hitems, ?_, ?_⟩
    · rw [hcore]
    · rw [hjoydevs]
      exact update_apply ..
  · simp only [hvalue, if_false, false_and, true_and]
    exact update_apply ..

/-! ### A refresh -/

/-- The first ports have been set to what their items show, and none of them shares the mouse. -/
structure AppliedTo (c : JoyPortMenu) (n : Nat) (s : JoyPortState) : Prop where
  shown : ∀ p : JoyPort, p < n → c.hasItem p → s.shown p = s.joydevs p
  core : ∀ p : JoyPort, p < n → c.hasItem p → s.core p = s.joydevs p
  once : ∀ p q : JoyPort, p < n → c.hasItem p → c.hasItem q → s.shown p = joydevMouse → s.shown q = joydevMouse → p = q

theorem applyItem_of_not {p : JoyPort} (h : ¬ c.hasItem p) : s.applyItem c p = s := by
  rw [applyItem, if_neg h]

theorem applyItem_appliedTo {p : JoyPort} (happlied : s.AppliedTo c p) : (s.applyItem c p).AppliedTo c (p + 1) := by
  by_cases hitem : c.hasItem p
  swap
  · rw [applyItem_of_not hitem]
    have hbefore : ∀ q : JoyPort, (q : Nat) < p + 1 → c.hasItem q → (q : Nat) < p := by
      intro q hq hq'
      have hne : q ≠ p := by
        rintro rfl
        exact hitem hq'
      have hval : (q : Nat) ≠ p := fun h => hne (Fin.ext h)
      omega
    exact ⟨fun q hq hq' => happlied.shown q (hbefore q hq hq') hq', fun q hq hq' => happlied.core q (hbefore q hq hq') hq',
      fun q r hq hq' => happlied.once q r (hbefore q hq hq') hq'⟩
  rw [applyItem, if_pos hitem]
  have hspec := fun q => setJoyItemToValue_eq (c := c) p q (s.shown p) s
  -- a port before this one has lost nothing, or it would share the mouse
  have hkept : ∀ q : JoyPort, (q : Nat) < p → c.hasItem q → ¬ (s.shown p = joydevMouse ∧ s.Loses c p q) := by
    rintro q hq hq' ⟨hmouse, hne, -, hshown⟩
    exact hne (happlied.once q p hq hq' hitem hshown hmouse)
  have hself : ¬ (s.shown p = joydevMouse ∧ s.Loses c p p) := fun h => h.2.1 rfl
  have hshown : ∀ q : JoyPort, (q : Nat) < p + 1 → c.hasItem q →
      (s.setJoyItemToValue c p (s.shown p)).shown q = s.shown q := by
    intro q hq hq'
    rw [shown, (hspec q).1, if_neg]
    · rfl
    · by_cases heq : q = p
      · rw [heq]
        exact hself
      · have hval : (q : Nat) ≠ p := fun h => heq (Fin.ext h)
        exact hkept q (by omega) hq'
  refine ⟨fun q hq hq' => ?_, fun q hq hq' => ?_, fun q r hq hq' hr hmouse hother => ?_⟩
  · rw [hshown q hq hq', (hspec q).2.2]
    by_cases heq : q = p
    · rw [if_pos heq, heq]
    · rw [if_neg heq]
      have hval : (q : Nat) ≠ p := fun h => heq (Fin.ext h)
      exact happlied.shown q (by omega) hq'
  · rw [(hspec q).2.1, (hspec q).2.2]
    by_cases heq : q = p
    · rw [if_pos heq, if_pos heq]
    · have hval : (q : Nat) ≠ p := fun h => heq (Fin.ext h)
      rw [if_neg heq, if_neg heq, if_neg (hkept q (by omega) hq')]
      exact happlied.core q (by omega) hq'
  · rw [hshown q hq hq'] at hmouse
    by_contra hne
    have hkeptR : s.shown r = joydevMouse ∧ ¬ (s.shown p = joydevMouse ∧ s.Loses c p r) := by
      rw [shown, (hspec r).1] at hother
      split at hother
      · rw [choiceInts_zero] at hother
        exact absurd hother joydevNone_ne
      · next hlost => exact ⟨hother, hlost⟩
    by_cases heq : q = p
    · rw [heq] at hmouse hne
      exact hkeptR.2 ⟨hmouse, Ne.symm hne, hr, hkeptR.1⟩
    · have hval : (q : Nat) ≠ p := fun h => heq (Fin.ext h)
      exact hne (happlied.once q r (by omega) hq' hr hmouse hkeptR.1)

theorem AppliedTo.consistent (happlied : s.AppliedTo c 4) : (s.setNeedMouse c).Consistent c := by
  have hshown : ∀ p, c.hasItem p → s.shown p = s.joydevs p := fun p hp => happlied.shown p p.isLt hp
  refine ⟨fun p q hp hq hmouse hother => ?_, hshown, fun p hp => happlied.core p p.isLt hp, ?_⟩
  · apply happlied.once p q p.isLt hp hq
    · rw [hshown p hp]
      exact hmouse
    · rw [hshown q hq]
      exact hother
  · simp only [setNeedMouse, Bool.or_eq_true, Bool.and_eq_true, decide_eq_true_eq]
    have hfirst : (c.hasItem 0 ∧ s.shown 0 = joydevMouse) ↔ (c.hasItem 0 ∧ s.joydevs 0 = joydevMouse) :=
      and_congr_right fun h => by rw [hshown 0 h]
    have hsecond : (c.hasItem 1 ∧ s.shown 1 = joydevMouse) ↔ (c.hasItem 1 ∧ s.joydevs 1 = joydevMouse) :=
      and_congr_right fun h => by rw [hshown 1 h]
    exact or_congr hfirst hsecond

theorem uiSetJoyItems_consistent (s : JoyPortState) : (s.uiSetJoyItems c).Consistent c := by
  simp only [uiSetJoyItems]
  generalize (List.finRange 4).foldl (fun s p => s.matchItem c p) s = s
  have hstart : s.AppliedTo c 0 := ⟨fun _ h => absurd h (Nat.not_lt_zero _), fun _ h => absurd h (Nat.not_lt_zero _),
    fun _ _ h => absurd h (Nat.not_lt_zero _)⟩
  have hfirst := applyItem_appliedTo (p := 0) hstart
  have hsecond := applyItem_appliedTo (p := 1) hfirst
  have hthird := applyItem_appliedTo (p := 2) hsecond
  have hfourth := applyItem_appliedTo (p := 3) hthird
  exact AppliedTo.consistent hfourth

/-! ### A choice -/

def OthersLack (c : JoyPortMenu) (p : JoyPort) (s : JoyPortState) : Prop :=
  ∀ q, q ≠ p → c.hasItem q → s.joydevs q ≠ joydevMouse

theorem choose_eq (p : JoyPort) (i : Fin 14) (s : JoyPortState) :
    ∃ s' : JoyPortState, s.choose c p i = s'.setNeedMouse c ∧ ∀ q,
      s'.items q = (if choiceInts i = joydevMouse ∧ s.Loses c p q then 0 else if q = p then i else s.items q) ∧
      s'.core q = (if q = p then choiceInts i
        else if choiceInts i = joydevMouse ∧ s.Loses c p q then joydevNone else s.core q) ∧
      s'.joydevs q = (if q = p then choiceInts i else s.joydevs q) := by
  refine ⟨_, rfl, fun q => ?_⟩
  obtain ⟨hitems, hcore, hjoydevs⟩ :=
    setJoyItemToValue_eq (c := c) p q (choiceInts i) { s with items := Function.update s.items p i }
  have hloses : Loses c p q { s with items := Function.update s.items p i } ↔ s.Loses c p q := by
    by_cases hq : q = p
    · simp [Loses, hq]
    · exact loses_congr (update_of_ne hq _ _)
  simp only [hloses, update_apply] at hitems hcore hjoydevs
  exact ⟨hitems, hcore, hjoydevs⟩

/-- A choice keeps the ports in line just when it takes the mouse from no other port. -/
theorem choose_consistent_iff {p : JoyPort} {i : Fin 14} (hs : s.Consistent c) (hp : c.hasItem p) :
    (s.choose c p i).Consistent c ↔ (choiceInts i = joydevMouse → s.OthersLack c p) := by
  obtain ⟨s', heq, hspec⟩ := choose_eq (c := c) p i s
  rw [heq]
  constructor
  · intro hafter hmouse q hne hq hother
    have hp' : s'.joydevs p = joydevMouse := by rw [(hspec p).2.2, if_pos rfl, hmouse]
    have hq' : s'.joydevs q = joydevMouse := by rw [(hspec q).2.2, if_neg hne, hother]
    exact hne (hafter.once p q hp hq hp' hq').symm
  · intro hothers
    have hkept : ∀ q, ¬ (choiceInts i = joydevMouse ∧ s.Loses c p q) := by
      rintro q ⟨hmouse, hne, hq, hshown⟩
      rw [hs.shown q hq] at hshown
      exact hothers hmouse q hne hq hshown
    have hshown : ∀ q, c.hasItem q → s'.shown q = s'.joydevs q := by
      intro q hq
      rw [shown, (hspec q).1, (hspec q).2.2, if_neg (hkept q)]
      by_cases heq : q = p
      · rw [if_pos heq, if_pos heq]
      · rw [if_neg heq, if_neg heq]
        exact hs.shown q hq
    refine AppliedTo.consistent ⟨fun q _ hq => hshown q hq, fun q _ hq => ?_, fun q r _ hq hr hmouse hother => ?_⟩
    · rw [(hspec q).2.1, (hspec q).2.2, if_neg (hkept q)]
      by_cases heq : q = p
      · rw [if_pos heq, if_pos heq]
      · rw [if_neg heq, if_neg heq]
        exact hs.core q hq
    · rw [hshown q hq, (hspec q).2.2] at hmouse
      rw [hshown r hr, (hspec r).2.2] at hother
      by_cases hqp : q = p
      · rw [if_pos hqp] at hmouse
        by_cases hrp : r = p
        · rw [hqp, hrp]
        · rw [if_neg hrp] at hother
          exact absurd hother (hothers hmouse r hrp hr)
      · rw [if_neg hqp] at hmouse
        by_cases hrp : r = p
        · rw [if_pos hrp] at hother
          exact absurd hmouse (hothers hother q hqp hq)
        · rw [if_neg hrp] at hother
          exact hs.once q r hq hr hmouse hother

/-! ### Every run -/

/-- A choice takes the mouse from no other port. -/
def Meets (c : JoyPortMenu) (step : Step) (s : JoyPortState) : Prop :=
  match step with
  | .choose p i => c.hasItem p → choiceInts i = joydevMouse → s.OthersLack c p
  | _ => True

/-- The states of a run that begins with a refresh, as it does once the settings are loaded. -/
inductive Reaches (c : JoyPortMenu) : JoyPortState → Prop
  | start (s : JoyPortState) : Reaches c (s.uiSetJoyItems c)
  | step {s : JoyPortState} (step : Step) (hrun : Reaches c s) : Reaches c (s.step c step)

/-- The same, with the mouse taken from no port. -/
inductive ReachesKept (c : JoyPortMenu) : JoyPortState → Prop
  | start (s : JoyPortState) : ReachesKept c (s.uiSetJoyItems c)
  | step {s : JoyPortState} (step : Step) (hrun : ReachesKept c s) (hmeets : Meets c step s) : ReachesKept c (s.step c step)

/-- A swap puts the ports in line, and a choice keeps them so under the condition. -/
theorem step_consistent {step : Step} (hs : s.Consistent c) (hmeets : Meets c step s) : (s.step c step).Consistent c := by
  cases step with
  | choose p i =>
    simp only [JoyPortState.step]
    split
    · next hp => exact (choose_consistent_iff hs hp).2 (hmeets hp)
    · exact hs
  | swap => exact uiSetJoyItems_consistent _
  | refresh => exact uiSetJoyItems_consistent s

theorem joy_ports_consistent (hrun : ReachesKept c s) : s.Consistent c := by
  induction hrun with
  | start s => exact uiSetJoyItems_consistent s
  | step step _ hmeets ih => exact step_consistent ih hmeets

def amongTwo (p : JoyPort) : Bool := p.val < 2

theorem amongTwo_second : amongTwo 1 → amongTwo 0 := fun _ => rfl

def twoPorts : JoyPortMenu := ⟨amongTwo, amongTwo_second⟩

def unset : JoyPortState := ⟨fun _ => ⟨0, by decide⟩, fun _ => joydevNone, fun _ => joydevNone, false⟩

/-- The first port gets the mouse, and then the two are swapped. -/
theorem joy_ports_consistent_swapped :
    ((((unset.uiSetJoyItems twoPorts).step twoPorts (.choose 0 9)).step twoPorts .swap).joydevs 1 = joydevMouse) ∧
      (((unset.uiSetJoyItems twoPorts).step twoPorts (.choose 0 9)).step twoPorts .swap).Consistent twoPorts := by
  refine ⟨by decide, joy_ports_consistent (.step .swap (.step (.choose 0 9) (.start unset) ?_) trivial)⟩
  intro _ _ q hne hq
  revert q
  decide

/-- The first port gets the mouse, and then the second: the first one's item shows none, and `joydevs` the mouse. -/
theorem mouse_in_two_ports :
    ∃ s, Reaches twoPorts s ∧ twoPorts.hasItem 0 ∧ twoPorts.hasItem 1 ∧ s.joydevs 0 = joydevMouse ∧
      s.joydevs 1 = joydevMouse ∧ s.shown 0 = joydevNone ∧ ¬ s.Consistent twoPorts := by
  refine ⟨_, .step (.choose 1 9) (.step (.choose 0 9) (.start unset)), by decide, by decide, by decide, by decide,
    by decide, fun h => ?_⟩
  have hshown := h.shown 0 (by decide)
  revert hshown
  decide

end JoyPortState

end Bmx.Menu
