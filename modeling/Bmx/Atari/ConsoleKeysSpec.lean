import Bmx.Atari.ConsoleKeys

/-!
# Levels and held keys

Each event sets the level of its console key, whatever else is held. The levels are those of the held keys as long as no key
is released while another one stands for the same console key, and no assignment takes a held key to another one.
-/

namespace Bmx.Atari

open Input Function

/-! ### Events -/

theorem takeModifiers_level (event : PendingEmuKey) (s : InputState) (console : ConsoleKey) :
    (takeModifiers event s).level console = s.level console := by
  cases console <;> rfl

theorem takeTyped_level (key : Int64) (pressed : Bool) (s : InputState) (console : ConsoleKey) :
    (takeTyped key pressed s).level console = s.level console := by
  unfold takeTyped
  split
  · cases console <;> rfl
  split
  · split
    · cases console <;> rfl
    · rfl
  split
  · cases console <;> rfl
  · rfl

theorem takeAction_level (action : Int32) (pressed : Bool) (s : InputState) (console : ConsoleKey) :
    (takeAction action pressed s).level console = if actionKey action = some console then pressed else s.level console := by
  unfold takeAction actionKey
  split
  · cases console <;> rfl
  split
  · cases console <;> rfl
  split
  · cases console <;> rfl
  split
  · cases console <;> rfl
  split
  · cases console <;> rfl
  split
  · cases console <;> rfl
  · rfl

/-- An event sets the level of the console key that its key is assigned to, and no other. -/
theorem drainKey_level (actions : FkeyActions) (s : InputState) (event : PendingEmuKey) (console : ConsoleKey) :
    (drainKey actions s event).level console =
      if consoleKey actions event.key = some console then decide (event.pressed ≠ 0) else s.level console := by
  have hmodifiers := takeModifiers_level event s
  unfold drainKey
  split
  · rename_i hshift
    have hnone : consoleKey actions event.key = none := by
      rcases hshift with hkey | hkey | hkey | hkey <;> rw [hkey] <;> rfl
    rw [hnone, if_neg nofun, hmodifiers]
  split
  · rename_i hkey
    rw [hkey]
    cases console <;> rfl
  split
  · rename_i hkey
    rw [hkey]
    cases console <;> rfl
  split
  · rename_i hkey
    rw [hkey]
    cases console <;> rfl
  rename_i hstart hselect hoption
  split
  · rename_i hkey
    have hnone : consoleKey actions keycodeF5 = none := rfl
    rw [hkey, hnone, if_neg nofun, ← hmodifiers]
    cases console <;> rfl
  have hconsole : consoleKey actions event.key = (fkeySlot event.key).bind fun slot => actionKey (actions slot) := by
    unfold consoleKey
    rw [if_neg hstart, if_neg hselect, if_neg hoption]
  rw [hconsole]
  split
  · rename_i slot hslot
    rw [hslot, takeAction_level, hmodifiers]
    rfl
  · rename_i hslot
    rw [hslot, takeTyped_level, hmodifiers]
    rfl

theorem takeEvent_follows_iff {c : Console} (hfollows : c.Follows) (event : PendingEmuKey) :
    (c.takeEvent event).Follows ↔ c.Alone event := by
  constructor
  · intro h hreleased console hconsole other hheld hother
    by_contra hne
    have hafter : (c.takeEvent event).held other = true := by
      change Function.update c.held event.key _ other = true
      rwa [update_of_ne hne]
    have hlevel := (h console).2 ⟨other, hafter, hother⟩
    rw [Console.takeEvent, drainKey_level, if_pos hconsole] at hlevel
    exact of_decide_eq_true hlevel hreleased
  · intro halone console
    change (drainKey c.actions c.input event).level console = true ↔
      ∃ key, Function.update c.held event.key (decide (event.pressed ≠ 0)) key = true ∧
        consoleKey c.actions key = some console
    rw [drainKey_level]
    by_cases hconsole : consoleKey c.actions event.key = some console
    · rw [if_pos hconsole, decide_eq_true_iff]
      constructor
      · intro hpressed
        exact ⟨event.key, by rw [update_self]; exact decide_eq_true hpressed, hconsole⟩
      · rintro ⟨key, hheld, hkey⟩ hreleased
        by_cases hsame : key = event.key
        · rw [hsame, update_self] at hheld
          exact of_decide_eq_true hheld hreleased
        · rw [update_of_ne hsame] at hheld
          exact hsame (halone hreleased console hconsole key hheld hkey)
    · rw [if_neg hconsole, hfollows console]
      refine exists_congr fun key => and_congr_left fun hkey => ?_
      have hother : key ≠ event.key := by
        rintro rfl
        exact hconsole hkey
      rw [update_of_ne hother]

/-- After a new assignment the levels follow just if it keeps the console keys that are held. -/
theorem assign_follows_iff {c : Console} (hfollows : c.Follows) (slot : Fin 6) (value : Int32) :
    (c.step (.assign slot value)).Follows ↔ c.Keeps slot value := by
  have hlevel (console : ConsoleKey) : (c.step (.assign slot value)).input.level console = true ↔ c.Holds console :=
    hfollows console
  constructor
  · intro h console
    exact (h console).symm.trans (hlevel console)
  · intro hkeeps console
    exact (hlevel console).trans (hkeeps console).symm

/-! ### Runs -/

theorem drain_eq (c : Console) (events : List PendingEmuKey) : c.step (.drain events) = events.foldl Console.takeEvent c := by
  induction events generalizing c with
  | nil => rfl
  | cons event events ih =>
    rw [List.foldl_cons, ← ih]
    rfl

theorem drain_follows {c : Console} (hfollows : c.Follows) {events : List PendingEmuKey} (h : c.HarmlessEvents events) :
    (events.foldl Console.takeEvent c).Follows := by
  induction events generalizing c with
  | nil => exact hfollows
  | cons event events ih => exact ih ((takeEvent_follows_iff hfollows event).2 h.1) h.2

theorem step_follows {c : Console} (hfollows : c.Follows) {step : Step} (h : c.HarmlessStep step) :
    (c.step step).Follows := by
  cases step with
  | drain events =>
    rw [drain_eq]
    exact drain_follows hfollows h
  | assign slot value => exact (assign_follows_iff hfollows slot value).2 h

theorem init_follows (actions : FkeyActions) : (Console.init actions).Follows := by
  intro console
  refine iff_of_false ?_ ?_
  · cases console <;> exact Bool.false_ne_true
  · rintro ⟨key, hheld, -⟩
    cases hheld

theorem run_follows {c : Console} (hfollows : c.Follows) {steps : List Step} (h : c.Harmless steps) (n : Nat) :
    ((steps.take n).foldl Console.step c).Follows := by
  induction steps generalizing c n with
  | nil => rwa [List.take_nil]
  | cons step steps ih =>
    cases n with
    | zero => exact hfollows
    | succ n => exact ih (step_follows hfollows h.1) h.2 n

/-- In every run whose releases are alone and whose assignments keep the console keys that are held, the levels are those
of the held keys after each drain and each assignment. -/
theorem console_follows (actions : FkeyActions) (steps : List Step) (h : (Console.init actions).Harmless steps) (n : Nat) :
    ((steps.take n).foldl Console.step (Console.init actions)).Follows :=
  run_follows (init_follows actions) h n

/-- F2 pressed and released, with F6 assigned to START between. -/
theorem console_follows_alone : ∃ steps : List Step, (Console.init fun _ => 0).Harmless steps ∧
    ∀ n, ((steps.take n).foldl Console.step (Console.init fun _ => 0)).Follows := by
  let steps : List Step :=
    [.drain [⟨keycodeF2, 0, 1⟩], .assign 0 2, .drain [⟨keycodeF2, 0, 0⟩]]
  have hheld {f : Int64 → Bool} (hf : f = Function.update (fun _ => false) keycodeF2 true) (key : Int64) :
      f key = true ↔ key = keycodeF2 := by
    rw [hf, update_apply]
    split <;> simp_all
  have h : (Console.init fun _ => 0).Harmless steps := by
    refine ⟨⟨nofun, trivial⟩, ?_, ⟨?_, trivial⟩, trivial⟩
    · intro console
      refine exists_congr fun key => and_congr_right fun hkey => ?_
      rw [(hheld rfl key).1 hkey]
      rfl
    · intro _ console _ other hother _
      exact (hheld rfl other).1 hother
  exact ⟨steps, h, fun n => console_follows (fun _ => 0) steps h n⟩

/-- With F6 assigned to START, F2 and F6 are pressed and F6 is released: START goes up though F2 is held. -/
theorem shared_console_key_stays : ¬ ∀ (actions : FkeyActions) (steps : List Step) (n : Nat),
    ((steps.take n).foldl Console.step (Console.init actions)).Follows := by
  intro h
  have hstart := h (fun _ => 2)
    [.drain [⟨keycodeF2, 0, 1⟩, ⟨keycodeF6, 0, 1⟩], .drain [⟨keycodeF6, 0, 0⟩]] 2 .start
  exact absurd (hstart.2 ⟨keycodeF2, by decide, by decide⟩) (by decide)

end Bmx.Atari
