import Bmx.Base.Instances

/-!
# One life after the other

A component that serves one request at a time does, in the order of what happens, a sequence of
complete lives of requests and the beginning of one more. Its state belongs to the unfinished life.
-/

namespace Interaction

open List

variable {σ α ε : Type}

/-- What has happened is complete lives and an unfinished one, which the state belongs to. -/
def Lived (Life : List ε → Prop) (Unfinished : σ → List ε → Prop) (s : σ) (trace : List ε) : Prop :=
  ∃ (lives : List (List ε)) (unfinished : List ε), (∀ life ∈ lives, Life life) ∧
    trace = lives.flatten ++ unfinished ∧ Unfinished s unfinished

def Prolongs (Life : List ε → Prop) (Unfinished : σ → List ε → Prop) (s' : σ) (unfinished new : List ε) : Prop :=
  Unfinished s' (unfinished ++ new) ∨ (Life (unfinished ++ new) ∧ Unfinished s' [])

section

variable {Life : List ε → Prop} {Unfinished : σ → List ε → Prop} {s s' : σ} {trace new : List ε}

theorem Lived.start (h : Unfinished s []) : Lived Life Unfinished s [] :=
  ⟨[], [], fun _ hlife => absurd hlife not_mem_nil, rfl, h⟩

theorem Lived.step (h : Lived Life Unfinished s trace)
    (hstep : ∀ unfinished, Unfinished s unfinished → Prolongs Life Unfinished s' unfinished new) :
    Lived Life Unfinished s' (trace ++ new) := by
  obtain ⟨lives, unfinished, hlives, rfl, hunfinished⟩ := h
  rcases hstep unfinished hunfinished with hlonger | ⟨hends, hfree⟩
  · exact ⟨lives, unfinished ++ new, hlives, append_assoc _ _ _, hlonger⟩
  · refine ⟨lives ++ [unfinished ++ new], [], ?_, ?_, hfree⟩
    · intro life hlife
      rcases mem_append.1 hlife with hearlier | hlast
      · exact hlives life hearlier
      · rw [mem_singleton.1 hlast]
        exact hends
    · rw [flatten_append, flatten_singleton, append_nil, append_assoc]

end

/-! ### Runs -/

/-- A run of steps, each of which may be impossible, with what has happened. -/
def happens (step : α → σ → Option (List ε × σ)) : List α → σ → Option (List ε × σ)
  | [], s => some ([], s)
  | action :: rest, s => do
    let (new, s') ← step action s
    let (later, s'') ← happens step rest s'
    some (new ++ later, s'')

theorem happens_cons {step : α → σ → Option (List ε × σ)} {action : α} {rest : List α} {s s'' : σ}
    {trace : List ε} (h : happens step (action :: rest) s = some (trace, s'')) :
    ∃ new s' later, step action s = some (new, s') ∧ happens step rest s' = some (later, s'') ∧
      trace = new ++ later := by
  obtain ⟨⟨new, s'⟩, hstep, hrest⟩ := Option.bind_eq_some_iff.1 h
  obtain ⟨⟨later, last⟩, hlater, hlast⟩ := Option.bind_eq_some_iff.1 hrest
  cases hlast
  exact ⟨new, s', later, hstep, hlater, rfl⟩

theorem happens_first {step : α → σ → Option (List ε × σ)} {action : α} {rest : List α} {s s' s'' : σ}
    {new later : List ε} (hfirst : step action s = some (new, s')) (hrest : happens step rest s' = some (later, s'')) :
    happens step (action :: rest) s = some (new ++ later, s'') := by
  unfold happens
  rw [hfirst]
  change (happens step rest s' >>= _) = _
  rw [hrest]
  rfl

theorem Lived.happens {Life : List ε → Prop} {Unfinished : σ → List ε → Prop} {step : α → σ → Option (List ε × σ)}
    (hstep : ∀ action s new s', step action s = some (new, s') → ∀ unfinished, Unfinished s unfinished →
      Prolongs Life Unfinished s' unfinished new)
    {actions : List α} {s s' : σ} {trace later : List ε} (h : Lived Life Unfinished s trace)
    (hrun : Interaction.happens step actions s = some (later, s')) : Lived Life Unfinished s' (trace ++ later) := by
  induction actions generalizing s trace later with
  | nil =>
    cases hrun
    rwa [append_nil]
  | cons action rest ih =>
    obtain ⟨new, next, after, hfirst, hrest, rfl⟩ := happens_cons hrun
    rw [← append_assoc]
    exact ih (h.step (hstep action s new next hfirst)) hrest

end Interaction
