import Bmx.Base.Instances

/-!
# Loops that need not end

The body of a loop says whether there is another turn. A loop is run with so many turns to spend; that it ends is to say
that some number of turns, and then every larger one, brings it to the same end.
-/

namespace Bmx

variable {σ ε : Type}

/-- What a turn of a loop comes to. -/
inductive Turn (σ : Type)
  | again (s : σ)
  | leave (s : σ)

/-- A loop with so many turns to spend. `spent` stands for having none left. -/
def loop (spent : ε) (turn : σ → Except ε (Turn σ)) : ℕ → σ → Except ε σ
  | 0, _ => .error spent
  | turns + 1, s =>
    match turn s with
    | .error e => .error e
    | .ok (.leave s) => .ok s
    | .ok (.again s) => loop spent turn turns s

variable {spent : ε} {turn : σ → Except ε (Turn σ)}

/-- A loop ends if every turn lowers a measure, and what its turns keep holds where it ends. -/
theorem loop_ends (inv post : σ → Prop) (measure : σ → ℕ)
    (hturn : ∀ s, inv s → (∃ s', turn s = .ok (.again s') ∧ inv s' ∧ measure s' < measure s) ∨
      ∃ s', turn s = .ok (.leave s') ∧ post s')
    {s : σ} (hs : inv s) {turns : ℕ} (hturns : measure s < turns) :
    ∃ s', loop spent turn turns s = .ok s' ∧ post s' := by
  induction turns generalizing s with
  | zero => exact absurd hturns (Nat.not_lt_zero _)
  | succ turns ih =>
    rcases hturn s hs with ⟨s', hagain, hs', hless⟩ | ⟨s', hleave, hpost⟩
    · have hrest := ih hs' (Nat.lt_of_lt_of_le hless (Nat.le_of_lt_succ hturns))
      simpa only [loop, hagain] using hrest
    · exact ⟨s', by simp only [loop, hleave], hpost⟩

theorem loop_cases (inv post : σ → Prop)
    (hturn : ∀ s, inv s → (∃ s', turn s = .ok (.again s') ∧ inv s') ∨ ∃ s', turn s = .ok (.leave s') ∧ post s')
    {s : σ} (hs : inv s) (turns : ℕ) :
    loop spent turn turns s = .error spent ∨ ∃ s', loop spent turn turns s = .ok s' ∧ post s' := by
  induction turns generalizing s with
  | zero => exact .inl rfl
  | succ turns ih =>
    rcases hturn s hs with ⟨s', hagain, hs'⟩ | ⟨s', hleave, hpost⟩
    · have hrest := ih hs'
      simpa only [loop, hagain] using hrest
    · exact .inr ⟨s', by simp only [loop, hleave], hpost⟩

theorem loop_keeps (inv post : σ → Prop) (hagain : ∀ s s', inv s → turn s = .ok (.again s') → inv s')
    (hleave : ∀ s s', inv s → turn s = .ok (.leave s') → post s') {s s' : σ} (hs : inv s) {turns : ℕ}
    (hloop : loop spent turn turns s = .ok s') : post s' := by
  induction turns generalizing s with
  | zero => cases hloop
  | succ turns ih =>
    simp only [loop] at hloop
    split at hloop
    · cases hloop
    · rename_i next hturn
      cases hloop
      exact hleave s _ hs hturn
    · rename_i next hturn
      exact ih (hagain s next hs hturn) hloop

theorem loop_never (inv : σ → Prop) (failed : ε → Prop) (hspent : failed spent)
    (hturn : ∀ s, inv s → (∃ e, turn s = .error e ∧ failed e) ∨ ∃ s', turn s = .ok (.again s') ∧ inv s')
    {s : σ} (hs : inv s) (turns : ℕ) : ∃ e, loop spent turn turns s = .error e ∧ failed e := by
  induction turns generalizing s with
  | zero => exact ⟨spent, rfl, hspent⟩
  | succ turns ih =>
    rcases hturn s hs with ⟨e, herror, hfailed⟩ | ⟨s', hagain, hs'⟩
    · exact ⟨e, by simp only [loop, herror], hfailed⟩
    · have hrest := ih hs'
      simpa only [loop, hagain] using hrest

end Bmx
